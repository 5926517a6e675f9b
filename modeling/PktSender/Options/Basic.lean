/-
The options of src/main.c: `__parse_args` and the functions that parse the
arguments of `-p`, `-r` and `--config`.

# Memory

Strings are those of `Lib/CString`. A store past `lcore_params_array` is
`none`, and so is what would come after it; `-o` has no argument, so
`strdup` gets NULL, which is `none` as well. `s`, the copy of a group, is
never longer than its array.

# The command line

`getopt_long` is given by its answers, one after the other, and by `optind`
at their end. `lgopts` has one element, so an answer of 0 is `--config`.

# Parameter

`rte_strsplit` is outside the repository: a function of the string, of the
size of its buffer, of the number of tokens and of the delimiter, that
returns the tokens.

# Left out

What is printed, and `argv`, to which the last line of `__parse_args` writes
the name of the program.
-/
import PktSender.Lib.CString
import PktSender.Mapping.Basic

namespace PktSender.Options

open CString (strchr strtoul strtol)
open Mapping (LcoreParams ParamsArray Params maxLcoreParams)

-- =============================================================== the words

def einval : Int := 22
def erange : Int := 34

/-- The size of `s`. -/
def sizeofS : ℕ := 256

/-- `_NUM_FLD`. -/
def numFld : ℕ := 3

-- ================================================================ the data

abbrev Arg := List Char

/-- The variables the options set, and `errno`. -/
structure State where
  errno : Int
  lcoreParamsArray : ParamsArray
  /-- whether it points to the array; NULL before -/
  lcoreParams : Bool
  nbLcoreParams : ℕ
  portmask : UInt64
  txRate : UInt64

/-- What `__check_mapping` finds. -/
def State.params (s : State) : Params :=
  { lcoreParams := if s.lcoreParams then some s.lcoreParamsArray else none
    nbLcoreParams := s.nbLcoreParams }

/-- `errno` after a conversion. -/
def errnoAfter {α : Type} (errno : Int) (r : CString.Conversion α) : Int :=
  if r.erange then erange else errno

-- ============================================================= str_to_uint8

/-- `str_to_uint8`: the result if there is one, and `errno`. -/
def strToUint8 (str : Arg) (errno : Int) : Option UInt8 × Int :=
  let r := strtoul str 0
  let errno := errnoAfter errno r
  if errno ≠ 0 || r.rest.length = str.length || r.val > 255 then (none, errno)
  else (some r.val.toUInt8, errno)

-- =========================================================== __parse_config

/-- Write to the element of `lcore_params_array` that is to be filled. -/
def State.fill (s : State) (f : LcoreParams → LcoreParams) : Option State :=
  (Mapping.store s.lcoreParamsArray s.nbLcoreParams
    (f (s.lcoreParamsArray s.nbLcoreParams))).map fun a => { s with lcoreParamsArray := a }

/-- The fields of a group, and whether the loop goes on. -/
def parseFields (port job lcore : Arg) (s : State) : Option (State × Bool) :=
  -- parse port id
  let (val, errno) := strToUint8 port s.errno
  let s := { s with errno := errno }
  match val with
  | none => some (s, false)
  | some val =>
      (s.fill fun m => { m with portId := val }).bind fun s =>
        -- parse lcore id
        let (val, errno) := strToUint8 lcore s.errno
        let s := { s with errno := errno }
        match val with
        | none => some (s, false)
        | some val =>
            (s.fill fun m => { m with lcoreId := val }).bind fun s =>
              -- parse RX/TX/Latency
              if job = ['R'] then
                (s.fill fun m => { m with job := .rx }).map fun s =>
                  ({ s with nbLcoreParams := s.nbLcoreParams + 1 }, true)
              else if job = ['T'] then
                (s.fill fun m => { m with job := .tx }).map fun s =>
                  ({ s with nbLcoreParams := s.nbLcoreParams + 1 }, true)
              else some (s, false)

/-- The tokens of a group: they are to be `_NUM_FLD`. -/
def parseTokens : List Arg → State → Option (State × Bool)
  | [port, job, lcore], s => parseFields port job lcore s
  | _, s => some (s, false)

section
variable (rteStrsplit : Arg → ℕ → ℕ → Char → List Arg)

/-- The rest of a round, from `size` on; `body` starts behind the bracket and
`len` characters on is the other one. -/
def parseGroup (body : Arg) (len : ℕ) (s : State) : Option (State × Bool) :=
  let size := UInt32.ofNat len
  if size.toNat ≥ sizeofS then some (s, false)
  else parseTokens (rteStrsplit (body.take size.toNat) sizeofS numFld ',') s

/-- A later pointer into a string. -/
theorem strchr_lt {p0 p q : Arg} {x y : Char} (h : strchr p0 x = some p)
    (h' : strchr p.tail y = some q) : q.length < p0.length := by
  obtain ⟨a, b, rfl, rfl, -⟩ := CString.strchr_eq_some h
  obtain ⟨a', b', htail, rfl, -⟩ := CString.strchr_eq_some h'
  have hlen := congrArg List.length htail
  simp only [List.tail_cons, List.length_append, List.length_cons] at hlen ⊢
  omega

/-- The loop of `__parse_config`. -/
def parseConfigLoop (p0 : Arg) (s : State) : Option (State × Int) :=
  match _h : strchr p0 '(' with
  | none => some ({ s with lcoreParams := true }, 0)
  | some p =>
      if s.nbLcoreParams ≥ maxLcoreParams then some (s, -1)
      else
        match _h' : strchr p.tail ')' with
        | none => some (s, -1)
        | some q =>
            (parseGroup rteStrsplit p.tail (p.tail.length - q.length) s).bind fun r =>
              if r.2 then parseConfigLoop q r.1 else some (r.1, -1)
termination_by p0.length
decreasing_by exact strchr_lt _h _h'

/-- `__parse_config`. -/
def parseConfig (qArg : Arg) (s : State) : Option (State × Int) :=
  parseConfigLoop rteStrsplit qArg { s with nbLcoreParams := 0 }

end

-- ========================================================= __parse_portmask

/-- `__parse_portmask`; its results are those of a `uint8_t`. -/
def parsePortmask (str : Arg) (s : State) : State × UInt8 :=
  let r := strtoul str 16
  let s := { s with portmask := r.val, errno := errnoAfter s.errno r }
  if str.isEmpty || !r.rest.isEmpty then (s, -1)
  else if s.portmask = 0 && s.errno ≠ 0 then (s, -1)
  else (s, 0)

-- ============================================================= __parse_rate

/-- The `switch` of `__parse_rate`; a shift of a long is one of its bits. -/
def switchUnit (unit : Arg) (val : Int64) : UInt64 :=
  match unit.head? with
  | some 'k' | some 'K' => (val <<< 10).toUInt64
  | some 'm' | some 'M' => (val <<< 20).toUInt64
  | some 'g' | some 'G' => (val <<< 40).toUInt64
  | _ => val.toUInt64

/-- `__parse_rate`, and `errno`. -/
def parseRate (rateStr : Arg) (errno : Int) : UInt64 × Int :=
  let r := strtol rateStr 10
  let errno := errnoAfter errno r
  if errno = einval || errno = erange || r.rest.length = rateStr.length then (0, errno)
  else if r.val < 0 then (0, errno)
  else (switchUnit r.rest r.val, errno)

-- ============================================================= __parse_args

/-- An answer of `getopt_long`, with `optarg`. -/
inductive Opt where
  | p (optarg : Arg)
  | r (optarg : Arg)
  | o
  | config (optarg : Arg)
  /-- an unknown option, or one without its argument -/
  | other

/-- `__parse_args`. -/
def parseArgs (rteStrsplit : Arg → ℕ → ℕ → Char → List Arg) (optind : Int) :
    List Opt → State → Option (State × Int)
  | [], s => some (s, optind - 1)
  | .p optarg :: rest, s =>
      let (s, ret) := parsePortmask optarg s
      let ret := Int.ofNat ret.toNat
      if ret < 0 then some (s, -1) else parseArgs rteStrsplit optind rest s
  | .r optarg :: rest, s =>
      let (txRate, errno) := parseRate optarg s.errno
      parseArgs rteStrsplit optind rest { s with txRate := txRate, errno := errno }
  | .o :: _, _ => none
  | .config optarg :: rest, s =>
      (parseConfig rteStrsplit optarg s).bind fun (s, ret) =>
        if ret ≠ 0 then some (s, -1) else parseArgs rteStrsplit optind rest s
  | .other :: _, s => some (s, -1)

end PktSender.Options
