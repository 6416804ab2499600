import Secureblue.Py.DataClass
import Secureblue.Py.Json

/-! Requests to the worker that enrols secure boot keys (`serialize` and `deserialize` of
    `shared/secure_boot.py`), as the objects that stand for them in JSON.

    The class of a request is found by its action and constructed from the members of the object.
    Members that are no fields are refused, but all fields have defaults, so missing ones are filled in
    (`lawful_iff`). -/

namespace Efi.Worker
open Py Json

/-! ### The code -/

/-- The classes of requests, `EnrollEfiKeys` and `EnrollMokKey`. -/
inductive Action where | enrollEfiKeys | enrollMokKey
  deriving DecidableEq

def enrollEfiKeys : Text := "enroll_efi_keys"

def enrollMokKey : Text := "enroll_mok_key"

/-- The default of the field `action` of the class. -/
def Action.name : Action → Text
  | .enrollEfiKeys => Worker.enrollEfiKeys
  | .enrollMokKey => Worker.enrollMokKey

/-- `_TYPES` -/
def types : Dict Text Action :=
  .ofList [(Worker.enrollEfiKeys, .enrollEfiKeys), (Worker.enrollMokKey, .enrollMokKey)]

def actionField : Text := "action"

/-- The names of the fields of a class. -/
def Action.fieldNames : Action → List Text
  | .enrollEfiKeys => [actionField, "db_auth", "kek_auth", "pk_auth"]
  | .enrollMokKey => [actionField, "der", "password"]

section
variable {ν : Type}

/-- The default of a field: the name of the action, or an empty text. -/
def Action.default (cls : Action) (field : Text) : Value ν :=
  if field = actionField then .string cls.name else .string []

/-- The fields of a class, with their defaults. -/
def Action.dataClass (cls : Action) : DataClass (Value ν) where
  fields := cls.fieldNames.map fun field => (field, cls.default field)
  nodup := by
    rw [List.map_map]
    cases cls with
    | enrollEfiKeys =>
      show [actionField, "db_auth", "kek_auth", "pk_auth"].Nodup
      decide
    | enrollMokKey =>
      show [actionField, "der", "password"].Nodup
      decide

/-- A request; the types of its fields are not checked. -/
structure Request (ν : Type) where
  cls : Action
  fields : (cls.dataClass : DataClass (Value ν)).Instance

/-- The exceptions of `deserialize`; the message of a `ValueError` names the action. -/
inductive Rejection (ν : Type) where
  | valueError (action : Value ν)
  | typeError

/-- `serialize`, up to `json.dumps` -/
def serialize (request : Request ν) : Dict Text (Value ν) := request.fields.asdict

/-- `_TYPES.get(action)`: no key is anything but a text. -/
def typesGet : Value ν → Option Action
  | .string action => types.get action
  | _ => none

/-- `deserialize`, behind `json.loads` -/
def deserialize (data : Dict Text (Value ν)) : Except (Rejection ν) (Request ν) :=
  let action := (data.get actionField).getD .null
  if ¬ action.isHashable then .error .typeError
  else
    match typesGet action with
    | none => .error (.valueError action)
    | some cls =>
      match cls.dataClass.new data with
      | none => .error .typeError
      | some fields => .ok ⟨cls, fields⟩

/-! ### What the two are for -/

/-- The request carries the action of its class. -/
def Request.OwnAction (request : Request ν) : Prop :=
  request.fields.asdict.get actionField = some (.string request.cls.name)

/-- The action of the object is the one of the class. -/
def Known (data : Dict Text (Value ν)) (cls : Action) : Prop :=
  data.get actionField = some (.string cls.name)

/-- The members of the object are exactly the fields of the class. -/
def Exact (data : Dict Text (Value ν)) (cls : Action) : Prop :=
  ∀ k, k ∈ data.keys ↔ k ∈ (cls.dataClass : DataClass (Value ν)).names

/-- The object is accepted if it is the serialisation of a request, and is what the request is serialised
    to; otherwise the exception says what is wrong. -/
structure Lawful (data : Dict Text (Value ν)) : Prop where
  accepts : (∃ request, deserialize data = .ok request) ↔
    ∃ request : Request ν, request.OwnAction ∧ (serialize request).Same data
  exact : (∃ request, deserialize data = .ok request) ↔ ∃ cls, Known data cls ∧ Exact data cls
  unknown : (∀ cls, ¬ Known data cls) →
    deserialize data = .error (.valueError ((data.get actionField).getD .null))
  wrong : ∀ cls, Known data cls → ¬ Exact data cls → deserialize data = .error .typeError
  same : ∀ request, deserialize data = .ok request → (serialize request).Same data

/-! ### Looking up the class -/

theorem name_injective : Function.Injective Action.name := by
  intro a b h
  cases a <;> cases b <;> first | rfl | exact absurd h (by decide)

theorem types_get (action : Text) (cls : Action) : types.get action = some cls ↔ action = cls.name := by
  have hne : Worker.enrollEfiKeys ≠ Worker.enrollMokKey := by decide
  rw [types, Dict.get_ofList, lastWins_cons, lastWins_cons, lastWins_nil, Option.none_or]
  by_cases hmok : action = Worker.enrollMokKey
  · subst hmok
    cases cls <;> simp [Action.name, hne.symm]
  · by_cases hefi : action = Worker.enrollEfiKeys
    · subst hefi
      cases cls <;> simp [Action.name, hne]
    · cases cls <;> simp [Action.name, hmok, hefi]

theorem typesGet_eq_some {v : Value ν} {cls : Action} : typesGet v = some cls ↔ v = .string cls.name := by
  cases v with
  | string action => rw [typesGet, types_get, Value.string.injEq]
  | null => simp [typesGet]
  | bool b => simp [typesGet]
  | number n => simp [typesGet]
  | array elems => simp [typesGet]
  | object members => simp [typesGet]

variable {data : Dict Text (Value ν)} {cls : Action}

theorem Known.unique {cls' : Action} (h : Known data cls) (h' : Known data cls') : cls = cls' := by
  rw [Known, h, Option.some.injEq, Value.string.injEq] at h'
  exact name_injective h'

/-- An object with a known action is up to the constructor of the class. -/
theorem deserialize_known (h : Known data cls) : deserialize data =
    match cls.dataClass.new data with
    | none => .error .typeError
    | some fields => .ok ⟨cls, fields⟩ := by
  have haction : (data.get actionField).getD .null = .string cls.name := by rw [h, Option.getD_some]
  have hget : typesGet (Value.string cls.name : Value ν) = some cls := typesGet_eq_some.mpr rfl
  rw [deserialize, haction]
  simp only [Value.isHashable, not_true_eq_false, if_false, hget]

theorem deserialize_eq_ok (h : Known data cls) {fields : (cls.dataClass : DataClass (Value ν)).Instance}
    (hnew : cls.dataClass.new data = some fields) : deserialize data = .ok ⟨cls, fields⟩ := by
  rw [deserialize_known h, hnew]

theorem deserialize_unknown (hhash : ((data.get actionField).getD .null).isHashable)
    (h : ∀ cls, ¬ Known data cls) :
    deserialize data = .error (.valueError ((data.get actionField).getD .null)) := by
  have hget : typesGet ((data.get actionField).getD .null) = none := by
    rw [Option.eq_none_iff_forall_ne_some]
    intro cls hsome
    have hstring := typesGet_eq_some.mp hsome
    cases haction : data.get actionField with
    | none =>
      rw [haction] at hstring
      cases hstring
    | some action =>
      rw [haction, Option.getD_some] at hstring
      exact h cls (by rw [Known, haction, hstring])
  rw [deserialize]
  simp only [hhash, not_true_eq_false, if_false, hget]

theorem deserialize_unhashable (h : ¬ ((data.get actionField).getD .null).isHashable) :
    deserialize data = .error .typeError := by
  rw [deserialize, if_pos h]

theorem hashable_of_known (h : Known data cls) : ((data.get actionField).getD .null).isHashable := by
  rw [h]
  rfl

/-- Only objects with a known action are accepted. -/
theorem known_of_ok {request : Request ν} (h : deserialize data = .ok request) :
    Known data request.cls ∧ request.cls.dataClass.new data = some request.fields := by
  by_cases hknown : ∃ cls, Known data cls
  · obtain ⟨cls, hcls⟩ := hknown
    rw [deserialize_known hcls] at h
    cases hnew : (cls.dataClass : DataClass (Value ν)).new data with
    | none =>
      rw [hnew] at h
      cases h
    | some fields =>
      rw [hnew] at h
      cases h
      exact ⟨hcls, hnew⟩
  · push Not at hknown
    by_cases hhash : ((data.get actionField).getD .null).isHashable
    · rw [deserialize_unknown hhash hknown] at h
      cases h
    · rw [deserialize_unhashable hhash] at h
      cases h

/-- The class takes its own fields. -/
theorem new_of_exact (h : Exact data cls) :
    ∃ fields, (cls.dataClass : DataClass (Value ν)).new data = some fields :=
  Option.isSome_iff_exists.mp (DataClass.new_isSome.mpr fun k => (h k).mp)

/-! ### The serialisations of requests -/

/-- The objects that are serialisations of requests are those of a known action with its fields. -/
theorem serialisation_iff : (∃ request : Request ν, request.OwnAction ∧ (serialize request).Same data) ↔
    ∃ cls, Known data cls ∧ Exact data cls := by
  constructor
  · rintro ⟨request, hown, hsame⟩
    refine ⟨request.cls, ?_, fun k => ?_⟩
    · rw [Known, ← hsame actionField]
      exact hown
    · rw [← hsame.mem_keys]
      exact DataClass.mem_keys_asdict request.fields
  · rintro ⟨cls, hknown, hexact⟩
    obtain ⟨fields, hnew⟩ := new_of_exact hexact
    have hsame := (DataClass.same_asdict_iff hnew).mpr fun k hk => (hexact k).mpr hk
    refine ⟨⟨cls, fields⟩, ?_, hsame⟩
    rw [Request.OwnAction, hsame actionField]
    exact hknown

/-- A request with the action of its class is read back from its serialisation. -/
theorem deserialize_serialize (request : Request ν) (h : request.OwnAction) :
    deserialize (serialize request) = .ok request :=
  deserialize_eq_ok h (DataClass.new_asdict request.fields)

/-- No field is missing from an object that the class of its action does not refuse, and its action is
    one that can be looked up. -/
def Complete (data : Dict Text (Value ν)) : Prop :=
  ((data.get actionField).getD .null).isHashable ∧
  ∀ cls, Known data cls → (∀ k ∈ data.keys, k ∈ (cls.dataClass : DataClass (Value ν)).names) →
    ∀ k ∈ (cls.dataClass : DataClass (Value ν)).names, k ∈ data.keys

theorem lawful_of_complete (h : Complete data) : Lawful data := by
  obtain ⟨hhash, hcomplete⟩ := h
  have hexact : ∀ {request : Request ν}, deserialize data = .ok request → Exact data request.cls := by
    intro request hok
    obtain ⟨hknown, hnew⟩ := known_of_ok hok
    have hfields : ∀ k ∈ data.keys, k ∈ (request.cls.dataClass : DataClass (Value ν)).names :=
      DataClass.new_isSome.mp (by rw [hnew]; rfl)
    exact fun k => ⟨hfields k, hcomplete request.cls hknown hfields k⟩
  have hiff : (∃ request, deserialize data = .ok request) ↔ ∃ cls, Known data cls ∧ Exact data cls := by
    constructor
    · rintro ⟨request, hok⟩
      exact ⟨request.cls, (known_of_ok hok).1, hexact hok⟩
    · rintro ⟨cls, hknown, hcls⟩
      obtain ⟨fields, hnew⟩ := new_of_exact hcls
      exact ⟨⟨cls, fields⟩, deserialize_eq_ok hknown hnew⟩
  refine ⟨hiff.trans serialisation_iff.symm, hiff, deserialize_unknown hhash, ?_, ?_⟩
  · intro cls hknown hnot
    have hsome : ¬ ((cls.dataClass : DataClass (Value ν)).new data).isSome := by
      intro hsome
      have hfields := DataClass.new_isSome.mp hsome
      exact hnot fun k => ⟨hfields k, hcomplete cls hknown hfields k⟩
    rw [Option.not_isSome_iff_eq_none] at hsome
    rw [deserialize_known hknown, hsome]
  · intro request hok
    exact (DataClass.same_asdict_iff (known_of_ok hok).2).mpr fun k => (hexact hok k).mpr

theorem complete_of_lawful (h : Lawful data) : Complete data := by
  constructor
  · by_contra hhash
    have hunknown : ∀ cls, ¬ Known data cls := fun cls hknown => hhash (hashable_of_known hknown)
    have herror := h.unknown hunknown
    rw [deserialize_unhashable hhash] at herror
    cases herror
  · intro cls hknown hfields
    obtain ⟨fields, hnew⟩ := Option.isSome_iff_exists.mp (DataClass.new_isSome.mpr hfields)
    obtain ⟨cls', hknown', hexact⟩ := h.exact.mp ⟨_, deserialize_eq_ok hknown hnew⟩
    rw [hknown.unique hknown']
    exact fun k hk => (hexact k).mpr hk

/-- CORRECT: an object is accepted exactly if it is the serialisation of a request, and is then the
    serialisation of what it is read as, if and only if its action can be looked up and no field is
    missing; and every request with the action of its class is read back from its serialisation. -/
theorem lawful_iff : (∀ data : Dict Text (Value ν), Lawful data ↔ Complete data) ∧
    ∀ request : Request ν, request.OwnAction → deserialize (serialize request) = .ok request :=
  ⟨fun _ => ⟨complete_of_lawful, lawful_of_complete⟩, deserialize_serialize⟩

/-- A request without a certificate and a password is accepted. -/
theorem not_lawful_actionOnly :
    ¬ Lawful (.ofList [(actionField, .string Worker.enrollMokKey)] : Dict Text (Value ℕ)) := by
  intro h
  have hknown : Known (.ofList [(actionField, .string Worker.enrollMokKey)] : Dict Text (Value ℕ)) .enrollMokKey := by
    simp [Known, Action.name]
  have hmissing := (complete_of_lawful h).2 .enrollMokKey hknown (by decide) "password" (by decide)
  revert hmissing
  decide

end

end Efi.Worker
