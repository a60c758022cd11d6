import MpiTestSuite.Tables.Config

/-!
# The table of tests

`tst_tests`, row by row, under the conditions of its preprocessor directives, and the functions that
read single rows. The last row, `"None"`, ends the table and is not counted by `TST_TESTS_NUM`.

Two rows have the description `"Alltoall"`; a name on the command line means the first row that
matches it.
-/

open MpiTestSuite.CString

namespace MpiTestSuite

/-- `struct tst_test`. -/
structure Test where
  /-- `class`. -/
  testClass : Flags
  description : CString
  runWithComm : Flags
  minCommSize : ℤ
  runWithType : TypeFlags
  mode : TstMode
  /-- `needs_sync`: `TST_SYNC` is `true`. -/
  needsSync : Bool
  /-- What the names of `tst_init_func`, `tst_run_func` and `tst_cleanup_func` share, in front of
  `_init`, `_run` and `_cleanup`; `none` where all three are `NULL`. -/
  functions : Option String
  deriving DecidableEq, Repr

/-- `tst_test_class_strings`. -/
def tstTestClassStrings : List CString :=
  [lit "Unspecified", lit "Environment", lit "P2P", lit "Collective", lit "One-sided",
    lit "Dynamic", lit "IO", lit "Threaded"]

/-! ## Datatypes shared by several rows -/

/-- The datatypes of the reductions with `MPI_MIN` and `MPI_MAX`. -/
def reductionTypes (cfg : Config) : TypeFlags :=
  (tstMpiStandardCTypes cfg ||| tstMpiStandardFortranIntTypes ||| tstMpiStandardFortranFloatTypes)
    &&& if cfg.haveMpi2 then ~~~(tstMpiChar ||| tstMpiByte)
      else ~~~(tstMpiChar ||| tstMpiSignedChar ||| tstMpiUnsignedChar ||| tstMpiByte)

/-- The datatypes of `MPI_Scan`, which leaves `MPI_SIGNED_CHAR` out under neither condition. -/
def scanTypes (cfg : Config) : TypeFlags :=
  (tstMpiStandardCIntTypes cfg ||| tstMpiStandardCFloatTypes ||| tstMpiStandardFortranComplexTypes)
    &&& if cfg.haveMpi2 then ~~~(tstMpiChar ||| tstMpiByte)
      else ~~~(tstMpiChar ||| tstMpiUnsignedChar ||| tstMpiByte)

/-- The datatypes of `MPI_Accumulate` with `MPI_MIN` and `MPI_MAX`. -/
def accumulateTypes (cfg : Config) : TypeFlags :=
  (tstMpiStandardCTypes cfg ||| tstMpiStandardFortranIntTypes ||| tstMpiStandardFortranFloatTypes)
    &&& ~~~(tstMpiChar ||| tstMpiUnsignedChar ||| tstMpiByte)

/-! ## The rows -/

/-- The rows under no condition. -/
def basicTests (cfg : Config) : List Test :=
  [⟨tstClassEnv, lit "Status", tstMpiCommSelf, 1, tstMpiChar, .strict, true,
      some "tst_env_status_check"⟩,
    ⟨tstClassEnv, lit "Request_Null", tstMpiCommSelf, 1, tstMpiChar, .strict, true,
      some "tst_env_request_null"⟩,
    ⟨tstClassEnv, lit "Type_dup", tstMpiCommSelf, 1, tstMpiAllCTypes cfg, .relaxed, true,
      some "tst_env_type_dup"⟩,
    ⟨tstClassEnv, lit "Get_version", tstMpiCommSelf, 1, tstMpiAllCTypes cfg, .relaxed, true,
      some "tst_env_get_version"⟩,
    ⟨tstClassP2p, lit "Ring", tstMpiCommSelf ||| tstMpiIntraComm, 1, tstMpiAllCTypes cfg,
      .relaxed, true, some "tst_p2p_simple_ring"⟩,
    ⟨tstClassP2p, lit "Ring Send Bottom", tstMpiCommSelf ||| tstMpiIntraComm, 1,
      tstMpiAllCTypes cfg, .relaxed, true, some "tst_p2p_simple_ring_bottom"⟩,
    ⟨tstClassP2p, lit "Ring Send Pack", tstMpiCommSelf ||| tstMpiIntraComm, 1,
      tstMpiAllCTypes cfg, .relaxed, true, some "tst_p2p_simple_ring_pack"⟩,
    ⟨tstClassP2p, lit "Ring Isend", tstMpiCommSelf ||| tstMpiIntraComm, 1, tstMpiAllCTypes cfg,
      .relaxed, true, some "tst_p2p_simple_ring_isend"⟩,
    ⟨tstClassP2p, lit "Ring Ibsend", tstMpiCommSelf ||| tstMpiIntraComm, 1, tstMpiAllCTypes cfg,
      .relaxed, true, some "tst_p2p_simple_ring_ibsend"⟩,
    ⟨tstClassP2p, lit "Ring Irsend", tstMpiCommSelf ||| tstMpiIntraComm, 1, tstMpiAllCTypes cfg,
      .relaxed, true, some "tst_p2p_simple_ring_irsend"⟩,
    ⟨tstClassP2p, lit "Ring Issend", tstMpiCommSelf ||| tstMpiIntraComm, 1, tstMpiAllCTypes cfg,
      .relaxed, true, some "tst_p2p_simple_ring_issend"⟩,
    ⟨tstClassP2p, lit "Ring Bsend", tstMpiCommSelf ||| tstMpiIntraComm, 1, tstMpiAllCTypes cfg,
      .relaxed, false, some "tst_p2p_simple_ring_bsend"⟩,
    ⟨tstClassP2p, lit "Ring Rsend", tstMpiCommSelf ||| tstMpiIntraComm, 1, tstMpiAllCTypes cfg,
      .relaxed, true, some "tst_p2p_simple_ring_rsend"⟩,
    ⟨tstClassP2p, lit "Ring Ssend", tstMpiCommSelf ||| tstMpiIntraComm, 1, tstMpiAllCTypes cfg,
      .relaxed, false, some "tst_p2p_simple_ring_ssend"⟩,
    ⟨tstClassP2p, lit "Ring Sendrecv", tstMpiCommSelf ||| tstMpiIntraComm, 1,
      tstMpiAllCTypes cfg, .relaxed, false, some "tst_p2p_simple_ring_sendrecv"⟩,
    ⟨tstClassP2p, lit "Ring same value", tstMpiCommSelf ||| tstMpiIntraComm, 1,
      tstMpiAllCTypes cfg, .relaxed, true, some "tst_p2p_simple_ring_xsend"⟩,
    ⟨tstClassP2p, lit "Ring Persistent", tstMpiCommSelf ||| tstMpiIntraComm, 1,
      tstMpiAllCTypes cfg, .relaxed, true, some "tst_p2p_simple_ring_persistent"⟩,
    ⟨tstClassP2p, lit "Direct Partner Intercomm", tstMpiInterComm, 1, tstMpiAllCTypes cfg,
      .relaxed, true, some "tst_p2p_direct_partner_intercomm"⟩,
    ⟨tstClassP2p, lit "Many-to-one", tstMpiIntraComm ||| tstMpiInterComm, 1, tstMpiAllCTypes cfg,
      .relaxed, false, some "tst_p2p_many_to_one"⟩,
    ⟨tstClassP2p, lit "Many-to-one with MPI_Probe (MPI_ANY_SOURCE)",
      tstMpiIntraComm ||| tstMpiInterComm, 1, tstMpiAllCTypes cfg, .relaxed, true,
      some "tst_p2p_many_to_one_probe_anysource"⟩,
    ⟨tstClassP2p, lit "Many-to-one with MPI_Iprobe (MPI_ANY_SOURCE)",
      tstMpiIntraComm ||| tstMpiInterComm, 1, tstMpiAllCTypes cfg, .relaxed, true,
      some "tst_p2p_many_to_one_iprobe_anysource"⟩,
    ⟨tstClassP2p, lit "Many-to-one with Isend and Cancellation", tstMpiIntraComm, 1,
      tstMpiAllCTypes cfg, .relaxed, true, some "tst_p2p_many_to_one_isend_cancel"⟩,
    ⟨tstClassP2p, lit "Alltoall", tstMpiIntraComm ||| tstMpiInterComm, 1, tstMpiAllCTypes cfg,
      .relaxed, false, some "tst_p2p_alltoall"⟩,
    ⟨tstClassP2p, lit "Alltoall Persistent", tstMpiIntraComm, 1, tstMpiAllCTypes cfg, .relaxed,
      false, some "tst_p2p_alltoall_persistent"⟩,
    ⟨tstClassP2p, lit "Alltoall xIsend", tstMpiIntraComm ||| tstMpiInterComm, 1,
      tstMpiAllCTypes cfg, .relaxed, false, some "tst_p2p_alltoall_xisend"⟩,
    ⟨tstClassP2p, lit "Alltoall Irsend", tstMpiIntraComm, 1, tstMpiAllCTypes cfg, .relaxed,
      false, some "tst_p2p_alltoall_irsend"⟩,
    ⟨tstClassP2p, lit "Alltoall Issend", tstMpiIntraComm ||| tstMpiInterComm, 1,
      tstMpiAllCTypes cfg, .relaxed, false, some "tst_p2p_alltoall_issend"⟩,
    ⟨tstClassP2p, lit "Alltoall with MPI_Probe (MPI_ANY_SOURCE)", tstMpiIntraComm, 1,
      tstMpiAllCTypes cfg, .relaxed, true, some "tst_p2p_alltoall_probe_anysource"⟩,
    ⟨tstClassP2p, lit "Ring Send with cart comm", tstMpiCartComm, 1, tstMpiAllCTypes cfg,
      .relaxed, true, some "tst_p2p_simple_ring_shift"⟩,
    ⟨tstClassP2p, lit "Alltoall with topo comm", tstMpiTopoComm, 1, tstMpiAllCTypes cfg,
      .relaxed, true, some "tst_p2p_alltoall_graph"⟩,
    ⟨tstClassColl, lit "Bcast", tstMpiCommSelf ||| tstMpiIntraComm, 1, tstMpiAllCTypes cfg,
      .relaxed, false, some "tst_coll_bcast"⟩,
    ⟨tstClassColl, lit "Gather", tstMpiCommSelf ||| tstMpiIntraComm, 1, tstMpiAllCTypes cfg,
      .relaxed, false, some "tst_coll_gather"⟩,
    ⟨tstClassColl, lit "Allgather", tstMpiCommSelf ||| tstMpiIntraComm, 1, tstMpiAllCTypes cfg,
      .relaxed, false, some "tst_coll_allgather"⟩,
    ⟨tstClassColl, lit "Allgather with MPI_IN_PLACE", tstMpiCommSelf ||| tstMpiIntraComm, 1,
      tstMpiAllCTypes cfg, .relaxed, false, some "tst_coll_allgather_in_place"⟩,
    ⟨tstClassColl, lit "Scan sum", tstMpiCommSelf ||| tstMpiIntraComm, 1, scanTypes cfg,
      .relaxed, true, some "tst_coll_scan_sum"⟩,
    ⟨tstClassColl, lit "Scatter", tstMpiCommSelf ||| tstMpiIntraComm, 1, tstMpiAllCTypes cfg,
      .relaxed, false, some "tst_coll_scatter"⟩,
    ⟨tstClassColl, lit "Scatterv", tstMpiCommSelf ||| tstMpiIntraComm, 1, tstMpiAllCTypes cfg,
      .relaxed, false, some "tst_coll_scatterv"⟩,
    ⟨tstClassColl, lit "Scatterv with stride", tstMpiCommSelf ||| tstMpiIntraComm, 1,
      tstMpiAllCTypes cfg, .relaxed, false, some "tst_coll_scatterv_stride"⟩,
    ⟨tstClassColl, lit "Reduce Min", tstMpiCommSelf ||| tstMpiIntraComm, 1, reductionTypes cfg,
      .relaxed, false, some "tst_coll_reduce_min"⟩,
    ⟨tstClassColl, lit "Reduce Max", tstMpiCommSelf ||| tstMpiIntraComm, 1, reductionTypes cfg,
      .relaxed, false, some "tst_coll_reduce_max"⟩,
    ⟨tstClassColl, lit "Reduce Min with MPI_IN_PLACE", tstMpiCommSelf ||| tstMpiIntraComm, 1,
      reductionTypes cfg, .relaxed, false, some "tst_coll_reduce_in_place_min"⟩,
    ⟨tstClassColl, lit "Reduce Max with MPI_IN_PLACE", tstMpiCommSelf ||| tstMpiIntraComm, 1,
      reductionTypes cfg, .relaxed, false, some "tst_coll_reduce_in_place_max"⟩,
    ⟨tstClassColl, lit "Allreduce Min", tstMpiCommSelf ||| tstMpiIntraComm, 1,
      reductionTypes cfg, .relaxed, false, some "tst_coll_allreduce_min"⟩,
    ⟨tstClassColl, lit "Allreduce Max", tstMpiCommSelf ||| tstMpiIntraComm, 1,
      reductionTypes cfg, .relaxed, false, some "tst_coll_allreduce_max"⟩,
    ⟨tstClassColl, lit "Allreduce Min/Max", tstMpiCommSelf ||| tstMpiIntraComm, 1,
      reductionTypes cfg, .relaxed, false, some "tst_coll_allreduce"⟩,
    ⟨tstClassColl, lit "Allreduce Min/Max with MPI_IN_PLACE", tstMpiCommSelf ||| tstMpiIntraComm,
      1, reductionTypes cfg, .relaxed, false, some "tst_coll_allreduce_in_place"⟩,
    ⟨tstClassColl, lit "Allreduce Sum", tstMpiCommSelf ||| tstMpiIntraComm, 1,
      tstMpiStandardCFloatTypes &&& ~~~(tstMpiFloat ||| tstMpiLongDouble), .relaxed, false,
      some "tst_coll_allreduce_sum"⟩,
    ⟨tstClassColl, lit "Alltoall", tstMpiCommSelf ||| tstMpiIntraComm, 1, tstMpiAllCTypes cfg,
      .relaxed, false, some "tst_coll_alltoall"⟩]

/-- The rows under `HAVE_MPI2_DYNAMIC`. -/
def dynamicTests (cfg : Config) : List Test :=
  [⟨tstClassDynamic, lit "establish_communication_alltoall", tstMpiIntraComm, 1,
      tstMpiAllCTypes cfg, .relaxed, true, some "tst_establish_communication"⟩,
    ⟨tstClassDynamic, lit "comm_spawn", tstMpiIntraComm, 1, tstMpiInt, .relaxed, true,
      some "tst_comm_spawn"⟩,
    ⟨tstClassDynamic, lit "comm_spawn_multiple", tstMpiIntraComm, 1, tstMpiInt, .relaxed, true,
      some "tst_comm_spawn_multiple"⟩]

/-- The rows under `HAVE_MPI2_ONE_SIDED`. -/
def oneSidedTests (cfg : Config) : List Test :=
  [⟨tstClassOneSided, lit "get_fence", tstMpiIntraComm, 1, tstMpiAllCTypes cfg, .relaxed, true,
      some "tst_get_with_fence_alltoall"⟩,
    ⟨tstClassOneSided, lit "put_fence", tstMpiIntraComm, 1, tstMpiAllCTypes cfg, .relaxed, true,
      some "tst_put_with_fence_alltoall"⟩,
    ⟨tstClassOneSided, lit "accumulate_fence", tstMpiIntraComm, 1,
      tstMpiStandardCFloatTypes &&& ~~~(tstMpiFloat ||| tstMpiLongDouble), .relaxed, true,
      some "tst_accumulate_with_fence_sum"⟩,
    ⟨tstClassOneSided, lit "get_post", tstMpiIntraComm, 1, tstMpiAllCTypes cfg, .relaxed, true,
      some "tst_get_with_post_alltoall"⟩,
    ⟨tstClassOneSided, lit "put_post", tstMpiIntraComm, 1, tstMpiAllCTypes cfg, .relaxed, true,
      some "tst_put_with_post_alltoall"⟩,
    ⟨tstClassOneSided, lit "accumulate_post_min", tstMpiIntraComm, 1, accumulateTypes cfg,
      .relaxed, true, some "tst_accumulate_with_post_min"⟩,
    ⟨tstClassOneSided, lit "get_lock", tstMpiIntraComm, 1, tstMpiAllCTypes cfg, .relaxed, true,
      some "tst_get_with_lock_alltoall"⟩,
    ⟨tstClassOneSided, lit "put_lock", tstMpiIntraComm, 1, tstMpiAllCTypes cfg, .relaxed, true,
      some "tst_put_with_lock_alltoall"⟩,
    ⟨tstClassOneSided, lit "accumulate_lock", tstMpiIntraComm, 1, accumulateTypes cfg, .relaxed,
      true, some "tst_accumulate_with_lock_max"⟩,
    ⟨tstClassOneSided, lit "Ring with Get", tstMpiCommSelf ||| tstMpiIntraComm, 1,
      tstMpiStandardCTypes cfg, .relaxed, false, some "tst_one_sided_simple_ring_get"⟩,
    ⟨tstClassOneSided, lit "Ring with Get using Post", tstMpiIntraComm, 2,
      tstMpiStandardCTypes cfg, .relaxed, false, some "tst_one_sided_simple_ring_get_post"⟩,
    ⟨tstClassOneSided, lit "Ring with Put", tstMpiCommSelf ||| tstMpiIntraComm, 1,
      tstMpiStandardCTypes cfg, .relaxed, false, some "tst_one_sided_simple_ring_put"⟩]

/-- The rows under `HAVE_MPI2_IO`. -/
def ioTests (cfg : Config) : List Test :=
  [⟨tstClassIo, lit "file simple", tstMpiIntraComm, 1,
      tstMpiAllCTypes cfg &&& ~~~tstMpiTypeMixLbUb, .relaxed, true, some "tst_file_simple"⟩,
    ⟨tstClassIo, lit "read_at", tstMpiIntraComm, 1, tstMpiAllCTypes cfg &&& ~~~tstMpiTypeMixLbUb,
      .relaxed, true, some "tst_file_read_at"⟩,
    ⟨tstClassIo, lit "write_at", tstMpiIntraComm, 1,
      tstMpiAllCTypes cfg &&& ~~~tstMpiTypeMixLbUb, .relaxed, true, some "tst_file_write_at"⟩,
    ⟨tstClassIo, lit "read_at_all", tstMpiIntraComm, 1,
      tstMpiAllCTypes cfg &&& ~~~tstMpiTypeMixLbUb, .relaxed, true, some "tst_file_read_at_all"⟩,
    ⟨tstClassIo, lit "write_at_all", tstMpiIntraComm, 1,
      tstMpiAllCTypes cfg &&& ~~~tstMpiTypeMixLbUb, .relaxed, true,
      some "tst_file_write_at_all"⟩,
    ⟨tstClassIo, lit "iread_at", tstMpiIntraComm, 1,
      tstMpiAllCTypes cfg &&& ~~~tstMpiTypeMixLbUb, .relaxed, true, some "tst_file_iread_at"⟩,
    ⟨tstClassIo, lit "iwrite_at", tstMpiIntraComm, 1,
      tstMpiAllCTypes cfg &&& ~~~tstMpiTypeMixLbUb, .relaxed, true, some "tst_file_iwrite_at"⟩,
    ⟨tstClassIo, lit "read_at_all_begin", tstMpiIntraComm, 1,
      tstMpiAllCTypes cfg &&& ~~~tstMpiTypeMixLbUb, .relaxed, true,
      some "tst_file_read_at_all_begin"⟩,
    ⟨tstClassIo, lit "write_at_all_begin", tstMpiIntraComm, 1,
      tstMpiAllCTypes cfg &&& ~~~tstMpiTypeMixLbUb, .relaxed, true,
      some "tst_file_write_at_all_begin"⟩,
    ⟨tstClassIo, lit "read", tstMpiIntraComm, 1, tstMpiAllCTypes cfg &&& ~~~tstMpiTypeMixLbUb,
      .relaxed, true, some "tst_file_read"⟩,
    ⟨tstClassIo, lit "write", tstMpiIntraComm, 1, tstMpiAllCTypes cfg &&& ~~~tstMpiTypeMixLbUb,
      .relaxed, true, some "tst_file_write"⟩,
    ⟨tstClassIo, lit "read_all", tstMpiIntraComm, 1,
      tstMpiAllCTypes cfg &&& ~~~tstMpiTypeMixLbUb, .relaxed, true, some "tst_file_read_all"⟩,
    ⟨tstClassIo, lit "write_all", tstMpiIntraComm, 1,
      tstMpiAllCTypes cfg &&& ~~~tstMpiTypeMixLbUb, .relaxed, true, some "tst_file_write_all"⟩,
    ⟨tstClassIo, lit "iread", tstMpiIntraComm, 1, tstMpiAllCTypes cfg &&& ~~~tstMpiTypeMixLbUb,
      .relaxed, true, some "tst_file_iread"⟩,
    ⟨tstClassIo, lit "iwrite", tstMpiIntraComm, 1, tstMpiAllCTypes cfg &&& ~~~tstMpiTypeMixLbUb,
      .relaxed, true, some "tst_file_iwrite"⟩,
    ⟨tstClassIo, lit "read_all_begin", tstMpiIntraComm, 1,
      tstMpiAllCTypes cfg &&& ~~~tstMpiTypeMixLbUb, .relaxed, true,
      some "tst_file_read_all_begin"⟩,
    ⟨tstClassIo, lit "write_all_begin", tstMpiIntraComm, 1,
      tstMpiAllCTypes cfg &&& ~~~tstMpiTypeMixLbUb, .relaxed, true,
      some "tst_file_write_all_begin"⟩,
    ⟨tstClassIo, lit "read_shared", tstMpiIntraComm, 1,
      tstMpiAllCTypes cfg &&& ~~~tstMpiTypeMixLbUb, .relaxed, true, some "tst_file_read_shared"⟩,
    ⟨tstClassIo, lit "write_shared", tstMpiIntraComm, 1,
      tstMpiAllCTypes cfg &&& ~~~tstMpiTypeMixLbUb, .relaxed, true,
      some "tst_file_write_shared"⟩,
    ⟨tstClassIo, lit "read_ordered", tstMpiIntraComm, 1,
      tstMpiAllCTypes cfg &&& ~~~tstMpiTypeMixLbUb, .relaxed, true,
      some "tst_file_read_ordered"⟩,
    ⟨tstClassIo, lit "write_ordered", tstMpiIntraComm, 1,
      tstMpiAllCTypes cfg &&& ~~~tstMpiTypeMixLbUb, .relaxed, true,
      some "tst_file_write_ordered"⟩,
    ⟨tstClassIo, lit "iread_shared", tstMpiIntraComm, 1,
      tstMpiAllCTypes cfg &&& ~~~tstMpiTypeMixLbUb, .relaxed, true,
      some "tst_file_iread_shared"⟩,
    ⟨tstClassIo, lit "iwrite_shared", tstMpiIntraComm, 1,
      tstMpiAllCTypes cfg &&& ~~~tstMpiTypeMixLbUb, .relaxed, true,
      some "tst_file_iwrite_shared"⟩,
    ⟨tstClassIo, lit "read_ordered_begin", tstMpiIntraComm, 1,
      tstMpiAllCTypes cfg &&& ~~~tstMpiTypeMixLbUb, .relaxed, true,
      some "tst_file_read_ordered_begin"⟩,
    ⟨tstClassIo, lit "write_ordered_begin", tstMpiIntraComm, 1,
      tstMpiAllCTypes cfg &&& ~~~tstMpiTypeMixLbUb, .relaxed, true,
      some "tst_file_write_ordered_begin"⟩,
    ⟨tstClassIo, lit "read_darray", tstMpiIntraComm, 1,
      tstMpiAllCTypes cfg &&& ~~~tstMpiTypeMixLbUb, .relaxed, true, some "tst_file_read_darray"⟩,
    ⟨tstClassIo, lit "write_darray", tstMpiIntraComm, 1,
      tstMpiAllCTypes cfg &&& ~~~tstMpiTypeMixLbUb, .relaxed, true,
      some "tst_file_write_darray"⟩,
    ⟨tstClassIo, lit "read_subarray", tstMpiIntraComm, 1,
      tstMpiAllCTypes cfg &&& ~~~tstMpiTypeMixLbUb, .relaxed, true,
      some "tst_file_read_subarray"⟩,
    ⟨tstClassIo, lit "write_subarray", tstMpiIntraComm, 1,
      tstMpiAllCTypes cfg &&& ~~~tstMpiTypeMixLbUb, .relaxed, true,
      some "tst_file_write_subarray"⟩,
    ⟨tstClassIo, lit "io_with_hole", tstMpiIntraComm, 1,
      tstMpiAllCTypes cfg &&& ~~~tstMpiTypeMixLbUb, .relaxed, true,
      some "tst_file_io_with_hole"⟩,
    ⟨tstClassIo, lit "io_with_arrange", tstMpiIntraComm, 1,
      tstMpiAllCTypes cfg &&& ~~~tstMpiTypeMixLbUb, .relaxed, true,
      some "tst_file_io_with_arrange"⟩,
    ⟨tstClassIo, lit "read_convert", tstMpiIntraComm, 1,
      tstMpiAllCTypes cfg &&& ~~~tstMpiTypeMixLbUb, .relaxed, true,
      some "tst_file_read_convert"⟩,
    ⟨tstClassIo, lit "io_atomic", tstMpiIntraComm, 1,
      tstMpiAllCTypes cfg &&& ~~~tstMpiTypeMixLbUb, .relaxed, true, some "tst_file_io_atomic"⟩,
    ⟨tstClassIo, lit "io_sync", tstMpiIntraComm, 1, tstMpiAllCTypes cfg &&& ~~~tstMpiTypeMixLbUb,
      .relaxed, true, some "tst_file_io_sync"⟩,
    ⟨tstClassIo, lit "asyncio_atomic", tstMpiIntraComm, 1,
      tstMpiAllCTypes cfg &&& ~~~tstMpiTypeMixLbUb, .relaxed, true,
      some "tst_file_asyncio_atomic"⟩,
    ⟨tstClassIo, lit "append_mode", tstMpiIntraComm, 1,
      tstMpiAllCTypes cfg &&& ~~~tstMpiTypeMixLbUb, .relaxed, true, some "tst_file_append_mode"⟩,
    ⟨tstClassIo, lit "io_commself", tstMpiIntraComm, 1,
      tstMpiAllCTypes cfg &&& ~~~tstMpiTypeMixLbUb, .relaxed, true, some "tst_file_io_commself"⟩,
    ⟨tstClassIo, lit "sequential_mode", tstMpiIntraComm, 1,
      tstMpiAllCTypes cfg &&& ~~~tstMpiTypeMixLbUb, .relaxed, true,
      some "tst_file_sequential_mode"⟩,
    ⟨tstClassIo, lit "set_size", tstMpiIntraComm, 1,
      tstMpiAllCTypes cfg &&& ~~~tstMpiTypeMixLbUb, .relaxed, true, some "tst_file_set_size"⟩,
    ⟨tstClassIo, lit "preallocate", tstMpiIntraComm, 1,
      tstMpiAllCTypes cfg &&& ~~~tstMpiTypeMixLbUb, .relaxed, true, some "tst_file_preallocate"⟩,
    ⟨tstClassIo, lit "io_with_hole2", tstMpiIntraComm, 1,
      tstMpiAllCTypes cfg &&& ~~~tstMpiTypeMixLbUb, .relaxed, true,
      some "tst_file_io_with_hole2"⟩]

/-- The rows under `HAVE_MPI2_THREADS`. -/
def threadedTests (cfg : Config) : List Test :=
  [⟨tstClassThreaded, lit "Threaded ring", tstMpiCommSelf ||| tstMpiIntraComm, 1,
      tstMpiAllCTypes cfg, .relaxed, false, some "tst_threaded_ring"⟩,
    ⟨tstClassThreaded, lit "Threaded ring isend", tstMpiCommSelf ||| tstMpiIntraComm, 1,
      tstMpiAllCTypes cfg, .relaxed, false, some "tst_threaded_ring_isend"⟩,
    ⟨tstClassThreaded, lit "Threaded ring bsend", tstMpiCommSelf ||| tstMpiIntraComm, 1,
      tstMpiAllCTypes cfg, .relaxed, false, some "tst_threaded_ring_bsend"⟩,
    ⟨tstClassThreaded, lit "Threaded ring persistent", tstMpiCommSelf ||| tstMpiIntraComm, 1,
      tstMpiAllCTypes cfg, .relaxed, false, some "tst_threaded_ring_persistent"⟩,
    ⟨tstClassThreaded, lit "Threaded bcast on duplicated comms",
      tstMpiCommSelf ||| tstMpiIntraComm, 1, tstMpiAllCTypes cfg, .relaxed, false,
      some "tst_threaded_comm_dup"⟩]

/-- The rows under `HAVE_MPI2_THREADS` and `HAVE_MPI4_PARTITIONED_P2P`. -/
def partitionedTests (cfg : Config) : List Test :=
  [⟨tstClassThreaded, lit "Threaded ring partitioned", tstMpiCommSelf ||| tstMpiIntraComm, 1,
      tstMpiAllCTypes cfg, .relaxed, false, some "tst_threaded_ring_partitioned"⟩,
    ⟨tstClassThreaded, lit "Threaded ring partitioned with less receive partitions",
      tstMpiCommSelf ||| tstMpiIntraComm, 1, tstMpiAllCTypes cfg, .relaxed, false,
      some "tst_threaded_ring_partitioned_many_to_one"⟩]

/-- The row that ends the table. -/
def noTest : Test :=
  ⟨tstClassUnspec, lit "None", 0, 0, 0, .disabled, false, none⟩

/-- The rows of `tst_tests` before the last one. -/
def tstTests (cfg : Config) : List Test :=
  basicTests cfg
    ++ (if cfg.haveMpi2Dynamic then dynamicTests cfg else [])
    ++ (if cfg.haveMpi2OneSided then oneSidedTests cfg else [])
    ++ (if cfg.haveMpi2Io then ioTests cfg else [])
    ++ (if cfg.haveMpi2Threads then
        threadedTests cfg ++ if cfg.haveMpi4PartitionedP2p then partitionedTests cfg else []
      else [])

/-- `tst_tests[i]`, the last row included; `CHECK_ARG` lets exactly the numbers through for which
there is a row. -/
def tstTest (cfg : Config) (i : ℤ) : Option Test :=
  if i < 0 then none else (tstTests cfg ++ [noTest])[i.toNat]?

/-- `tst_test_check_sync`; the `-1` for a number that is no test also means yes. -/
def tstTestCheckSync (cfg : Config) (i : ℤ) : Bool :=
  match tstTest cfg i with
  | some test => test.needsSync
  | none => true

/-- What holds of the rows of every part of the table holds of every test except the last row. -/
theorem tstTest_induction (cfg : Config) {P : Test → Bool}
    (h : ∀ rows ∈ [basicTests cfg, dynamicTests cfg, oneSidedTests cfg, ioTests cfg,
      threadedTests cfg, partitionedTests cfg], rows.all P = true)
    {i : ℤ} {row : Test} (hrow : tstTest cfg i = some row) : row = noTest ∨ P row = true := by
  have hpart : ∀ rows ∈ [basicTests cfg, dynamicTests cfg, oneSidedTests cfg, ioTests cfg,
      threadedTests cfg, partitionedTests cfg], row ∈ rows → P row = true :=
    fun rows hrows hmem ↦ List.all_eq_true.mp (h rows hrows) row hmem
  rw [tstTest] at hrow
  split_ifs at hrow
  have hmem := List.mem_of_getElem? hrow
  rw [tstTests] at hmem
  simp only [List.mem_append, List.mem_singleton] at hmem
  rcases hmem with ((((hmem | hmem) | hmem) | hmem) | hmem) | rfl
  · exact Or.inr (hpart (basicTests cfg) (by simp) hmem)
  · split_ifs at hmem
    · exact Or.inr (hpart (dynamicTests cfg) (by simp) hmem)
    · cases hmem
  · split_ifs at hmem
    · exact Or.inr (hpart (oneSidedTests cfg) (by simp) hmem)
    · cases hmem
  · split_ifs at hmem
    · exact Or.inr (hpart (ioTests cfg) (by simp) hmem)
    · cases hmem
  · split_ifs at hmem
    · rcases List.mem_append.mp hmem with hmem | hmem
      · exact Or.inr (hpart (threadedTests cfg) (by simp) hmem)
      · exact Or.inr (hpart (partitionedTests cfg) (by simp) hmem)
    · rcases List.mem_append.mp hmem with hmem | hmem
      · exact Or.inr (hpart (threadedTests cfg) (by simp) hmem)
      · cases hmem
    · cases hmem
  · exact Or.inl rfl

end MpiTestSuite
