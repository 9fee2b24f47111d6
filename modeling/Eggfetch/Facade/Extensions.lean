import Eggfetch.Text.Dictionary
import Eggfetch.Text.Bytes
import Mathlib.Data.Rat.Defs
import Mathlib.Algebra.Order.Ring.Unbundled.Rat

/-! The `extensions` of a request, a dict with texts for keys, and the timeout among them (`_timeout.py`, and
`_timeout_mapping`, `_request_timeout` and `_ensure_timeout_extension` of `_client.py`). -/
namespace Eggfetch.Facade
open Text

abbrev Seconds := {q : ℚ // 0 ≤ q}

/-- The limits of the four phases; `total`, which nothing forwards, is left out. -/
structure Phases where
  connect : Option Seconds
  read : Option Seconds
  write : Option Seconds
  pool : Option Seconds

/-- A value under a phase's key: `None`, an `int` or `float`, or something else. -/
inductive PhaseValue
  | none
  | finite (q : ℚ)
  | notFinite
  | other

inductive TimeoutError
  | type (name : Str)
  | finite (name : Str)
  | negative (name : Str)
  deriving DecidableEq

def validateValue (name : Str) : PhaseValue → Except TimeoutError (Option Seconds)
  | .none => .ok none
  | .other => .error (.type name)
  | .notFinite => .error (.finite name)
  | .finite q => if h : 0 ≤ q then .ok (some ⟨q, h⟩) else .error (.negative name)

/-- The value of a phase in `as_dict`. -/
def PhaseValue.ofPhase : Option Seconds → PhaseValue
  | .none => .none
  | some s => .finite s

/-- `==` of a value to that of a phase. -/
def PhaseValue.equals (value : PhaseValue) (phase : Option Seconds) : Bool :=
  match value, phase with
  | .none, .none => true
  | .finite q, some s => q = s
  | _, _ => false

theorem validateValue_ofPhase (name : Str) (phase : Option Seconds) : validateValue name (.ofPhase phase) = .ok phase := by
  cases phase with
  | none => rfl
  | some s => rw [PhaseValue.ofPhase, validateValue, dif_pos s.2]

theorem PhaseValue.eq_of_equals {value : PhaseValue} {phase : Option Seconds} (h : value.equals phase = true) :
    value = .ofPhase phase := by
  cases value with
  | none => cases phase with
    | none => rfl
    | some s => cases h
  | finite q => cases phase with
    | none => cases h
    | some s => rw [of_decide_eq_true h, ofPhase]
  | notFinite => cases phase <;> cases h
  | other => cases phase <;> cases h

namespace Phases

def connectKey : Str := utf8 "connect"
def readKey : Str := utf8 "read"
def writeKey : Str := utf8 "write"
def poolKey : Str := utf8 "pool"

def asDict (p : Phases) : Dict Str PhaseValue where
  items := [(connectKey, .ofPhase p.connect), (readKey, .ofPhase p.read), (writeKey, .ofPhase p.write),
    (poolKey, .ofPhase p.pool)]
  distinct := (by decide : [connectKey, readKey, writeKey, poolKey].Nodup)

/-- `value == self.as_dict` -/
def equalsDict (p : Phases) (value : Dict Str PhaseValue) : Bool :=
  value.items.length = 4 ∧ (value.get connectKey).any (·.equals p.connect) ∧ (value.get readKey).any (·.equals p.read) ∧
    (value.get writeKey).any (·.equals p.write) ∧ (value.get poolKey).any (·.equals p.pool)

/-- `Timeout(timeout=None, connect=value.get("connect"), …)` -/
def ofDict (value : Dict Str PhaseValue) : Except TimeoutError Phases := do
  let connect ← validateValue connectKey ((value.get connectKey).getD .none)
  let read ← validateValue readKey ((value.get readKey).getD .none)
  let write ← validateValue writeKey ((value.get writeKey).getD .none)
  let pool ← validateValue poolKey ((value.get poolKey).getD .none)
  return ⟨connect, read, write, pool⟩

theorem validateValue_of_any {value : Option PhaseValue} {phase : Option Seconds} (name : Str)
    (h : value.any (·.equals phase) = true) : validateValue name (value.getD .none) = .ok phase := by
  cases value with
  | none => cases h
  | some value => rw [Option.getD_some, PhaseValue.eq_of_equals h, validateValue_ofPhase]

private theorem ofDict_of_equalsDict {p : Phases} {value : Dict Str PhaseValue} (h : p.equalsDict value = true) :
    ofDict value = .ok p := by
  obtain ⟨-, hConnect, hRead, hWrite, hPool⟩ := of_decide_eq_true h
  rw [ofDict, validateValue_of_any _ hConnect, validateValue_of_any _ hRead, validateValue_of_any _ hWrite,
    validateValue_of_any _ hPool]
  rfl

theorem ofDict_asDict (p : Phases) : ofDict p.asDict = .ok p := by
  have hConnect : p.asDict.get connectKey = some (.ofPhase p.connect) := rfl
  have hRead : p.asDict.get readKey = some (.ofPhase p.read) := rfl
  have hWrite : p.asDict.get writeKey = some (.ofPhase p.write) := rfl
  have hPool : p.asDict.get poolKey = some (.ofPhase p.pool) := rfl
  rw [ofDict, hConnect, hRead, hWrite, hPool]
  simp only [Option.getD_some, validateValue_ofPhase]
  rfl

end Phases

/-- A value in the extensions: a dict of phases, or an object. -/
inductive Extension (O : Type)
  | dict (value : Dict Str PhaseValue)
  | object (o : O)

abbrev Extensions (O : Type) := Dict Str (Extension O)

namespace Extensions
variable {O : Type}

def timeoutKey : Str := utf8 "timeout"

def startedKey : Str := utf8 "_eggfetch_started_at"

/-- `_ensure_timeout_extension`; of a `Timeout`, `_timeout_mapping` is `as_dict`. -/
def ensureTimeout (extensions : Extensions O) (timeout : Phases) : Extensions O :=
  extensions.setdefault timeoutKey (.dict timeout.asDict)

def requestTimeout (extensions : Extensions O) (fallback : Phases) : Except TimeoutError Phases :=
  match extensions.get timeoutKey with
  | some (.dict value) => if fallback.equalsDict value then .ok fallback else Phases.ofDict value
  | _ => .ok fallback

/-- A timeout dict stands for its own phases, whatever the client's are. -/
theorem requestTimeout_dict {extensions : Extensions O} {value : Dict Str PhaseValue} (fallback : Phases)
    (h : extensions.get timeoutKey = some (.dict value)) : extensions.requestTimeout fallback = Phases.ofDict value := by
  rw [requestTimeout, h]
  dsimp only
  split
  · rename_i hEqual
    exact (Phases.ofDict_of_equalsDict hEqual).symm
  · rfl

end Extensions

end Eggfetch.Facade
