import Mathlib.Data.List.DropRight
import Windz.Log.LogStreamMemory
import Windz.Log.ConvertProof

/-!
# `Logger`

A `Logger` is made for one record. Its constructor streams the time, the thread, the
level and what else is known of the call, the caller streams operands of its own, and
the destructor streams where the call stands and hands the record to `g_output`.
-/

namespace Windz

open Lib FixBuffer LogStream
open Integer (toInt)

/-- `LogLevel`. -/
inductive LogLevel where
  | trace
  | debug
  | info
  | warn
  | error
  | fatal
deriving DecidableEq

/-- `LogLevelName`, all of six characters. -/
def LogLevel.name : LogLevel → List UInt8
  | .trace => text "TRACE "
  | .debug => text "DEBUG "
  | .info => text "INFO  "
  | .warn => text "WARN  "
  | .error => text "ERROR "
  | .fatal => text "FATAL "

/-- What `localtime_r` and `gettimeofday` give: `tm_year + 1900`, `tm_mon + 1`, and the rest. -/
structure LocalTime where
  /-- `tm_year + 1900`. -/
  year : Fin 10000
  /-- `tm_mon + 1`. -/
  mon : Fin 13
  /-- `tm_mday`. -/
  mday : Fin 32
  /-- `tm_hour`. -/
  hour : Fin 24
  /-- `tm_min`. -/
  min : Fin 60
  /-- `tm_sec`, with the leap second. -/
  sec : Fin 61
  /-- `tv_usec`. -/
  usec : Fin 1000000

/-- `%4d` and `%02d` of a number that is not negative. -/
def padded (c : UInt8) (width n : Nat) : List UInt8 :=
  List.replicate (width - (decimal n).length) c ++ decimal n

/-- `"%4d%02d%02d %02d:%02d:%02d.%06d "` -/
def formatTime (tm : LocalTime) : List UInt8 :=
  let zero := '0'.toUInt8
  padded ' '.toUInt8 4 tm.year ++ padded zero 2 tm.mon ++ padded zero 2 tm.mday ++ text " "
    ++ padded zero 2 tm.hour ++ text ":" ++ padded zero 2 tm.min ++ text ":"
    ++ padded zero 2 tm.sec ++ text "." ++ padded zero 6 tm.usec ++ text " "

/-- `t_tid_str`, `"%5d "`. -/
def tidStr (tid : Nat) : List UInt8 := padded ' '.toUInt8 5 tid ++ text " "

/-- The arguments of `Logger`; `func` may be null and `savedErrno` 0. -/
structure CallSite where
  /-- `__FILE__`. -/
  filename : List UInt8
  /-- `__LINE__`. -/
  line : Int32
  /-- The level. -/
  level : LogLevel
  /-- `__func__`, or null. -/
  func : Option (List UInt8)
  /-- The saved `errno`, or 0. -/
  savedErrno : Int32

/-- What the constructor asks the system for. -/
structure Surroundings where
  /-- The time. -/
  now : LocalTime
  /-- The thread. -/
  tid : Nat
  /-- `strerror_r` of the saved `errno`. -/
  strerror : List UInt8

/-- `filename_`: the name behind the last `/`. -/
def CallSite.baseName (site : CallSite) : List UInt8 :=
  (cString site.filename).rtakeWhile (· ≠ '/'.toUInt8)

/-- What ends up outside the logger. -/
inductive LogEffect where
  | output (msg : List UInt8)
  | flush
  | abort
deriving DecidableEq

namespace Logger

variable (F : FloatFormat)

/-- What the constructor streams; a `T` is appended like a string. -/
def header (site : CallSite) (env : Surroundings) : List (Operand F) :=
  [.string (formatTime env.now), .string (tidStr env.tid), .string site.level.name]
    ++ (if site.savedErrno ≠ 0 then
        [.cstr (some env.strerror), .cstr (some (text " (errno=")),
          .integer .int site.savedErrno, .cstr (some (text ") "))]
      else [])
    ++ match site.func with
      | some func => [.cstr (some func), .cstr (some (text " "))]
      | none => []

/-- What the destructor streams. -/
def trailer (site : CallSite) : List (Operand F) :=
  [.cstr (some (text " - ")), .cstr (some site.baseName), .char ':'.toUInt8,
    .integer .int site.line, .char '\n'.toUInt8]

variable {F}

/-- `~Logger` -/
def destroy (site : CallSite) (stream : Memory) : Option (List LogEffect) :=
  (puts stream (trailer F site)).map fun stream =>
    .output (stream.data.take stream.length)
      :: if site.level = .fatal then [.flush, .abort] else []

/-- The stream when `~Logger` is entered. -/
def fill (data : List UInt8) (site : CallSite) (env : Surroundings) (ops : List (Operand F)) :
    Option Memory :=
  puts (.create data) (header F site env ++ ops)

/-- `Logger(…).stream() << … ;` -/
def log (data : List UInt8) (site : CallSite) (env : Surroundings) (ops : List (Operand F)) :
    Option (List LogEffect) :=
  (fill data site env ops).bind (destroy (F := F) site)

end Logger

end Windz
