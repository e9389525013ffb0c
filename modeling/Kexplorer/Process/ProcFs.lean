import Kexplorer.Lib.Bytes

/-!
# Reading `/proc`
-/

namespace Kexplorer.Process

/-- `InvalidPid`. -/
def InvalidPid : Int32 := -1

/-- `ProcFs::Stat`. -/
structure Stat where
  valid : Bool := false
  error : Bytes := []
  pid : Int32 := InvalidPid
  comm : Bytes := []
  state : UInt8 := 0x3F
  ppid : Int32 := InvalidPid
  pgrp : Int32 := InvalidPid
  session : Int32 := InvalidPid
  tty_nr : Int32 := -1
  tpgid : Int32 := InvalidPid
  flags : UInt32 := 0
  minflt : UInt64 := 0
  cminflt : UInt64 := 0
  majflt : UInt64 := 0
  cmajflt : UInt64 := 0
  utime : UInt64 := 0
  stime : UInt64 := 0
  cutime : Int64 := 0
  cstime : Int64 := 0
  priority : Int64 := 0
  nice : Int64 := 0
  num_threads : Int64 := 0
  itrealvalue : Int64 := 0
  starttime : UInt64 := 0
  vsize : UInt64 := 0
  rss : Int64 := 0
  rsslim : UInt64 := 0
  startcode : UInt64 := 0
  endcode : UInt64 := 0
  startstack : UInt64 := 0
  kstkesp : UInt64 := 0
  kstkeip : UInt64 := 0
  signal : UInt64 := 0
  blocked : UInt64 := 0
  sigignore : UInt64 := 0
  sigcatch : UInt64 := 0
  wchan : UInt64 := 0
  nswap : UInt64 := 0
  cnswap : UInt64 := 0
  exit_signal : Int32 := -1
  processor : Int32 := -1
  rt_priority : UInt32 := 0
  policy : UInt32 := 0
  delayacct_blkio_ticks : UInt64 := 0
  guest_time : UInt64 := 0
  cguest_time : Int64 := 0
  start_data : UInt64 := 0
  end_data : UInt64 := 0
  start_brk : UInt64 := 0
  arg_start : UInt64 := 0
  arg_end : UInt64 := 0
  env_start : UInt64 := 0
  env_end : UInt64 := 0
  exit_code : Int32 := 0
  /-- Left uninitialised by the constructor. -/
  startTime : UInt64
  ruid : UInt32 := 0xFFFFFFFF
  deriving DecidableEq

end Kexplorer.Process
