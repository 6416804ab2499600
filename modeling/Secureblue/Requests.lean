import Secureblue.Efi.Request
import Secureblue.Kargs.UkiAddons
import Secureblue.Py.JsonText

/-! The requests that unprivileged tools pipe to their workers as JSON texts (`serialize` and `deserialize` of
    `shared/secure_boot.py` and of `shared/kargs_hardening.py`).

    Whatever texts a request carries, the worker reads back the request, and the pipe carries one line of
    printable ASCII, which no encoding and no newline translation changes (`requests_roundTrip`). -/

namespace Requests
open Py Json

/-- The exceptions of `deserialize`. -/
inductive Refusal where
  | json (failure : Failure)
  | attributeError
  | typeError
  | rejected (rejection : Efi.Worker.Rejection Text)

/-! ### Secure boot keys -/

/-- `serialize` of `shared/secure_boot.py` -/
def serializeKeys (request : Efi.Worker.Request Text) : Text :=
  dumps none (.object (Efi.Worker.serialize request).items)

/-- `deserialize` of `shared/secure_boot.py`; only an object has `get`. -/
def deserializeKeys (request : Text) : Except Refusal (Efi.Worker.Request Text) :=
  match loads request with
  | .ok (.object members) => (Efi.Worker.deserialize (Dict.ofList members)).mapError .rejected
  | .ok _ => .error .attributeError
  | .error failure => .error (.json failure)

/-! ### Kernel arguments -/

def addField : Text := "add"

def removeField : Text := "remove"

/-- A list of texts as a value. -/
def texts (l : List Text) : Value Text := .array (l.map .string)

/-- `serialize` of `shared/kargs_hardening.py` -/
def serializeKargs (request : Kargs.Uki.SetKargs) : Text :=
  dumps none (.object [(addField, texts request.add), (removeField, texts request.remove)])

/-- `deserialize` of `shared/kargs_hardening.py`: the fields `add` and `remove`, whatever their values are. -/
def deserializeKargs (request : Text) : Except Refusal (Value Text × Value Text) :=
  match loads request with
  | .ok (.object members) =>
    let data := Dict.ofList members
    match data.get addField, data.get removeField with
    | some add, some remove =>
      if ∀ k ∈ data.keys, k = addField ∨ k = removeField then .ok (add, remove) else .error .typeError
    | _, _ => .error .typeError
  | .ok _ => .error .typeError
  | .error failure => .error (.json failure)

/-! ### Round trips -/

/-- One line of printable ASCII. -/
def IsPlainLine (s : Text) : Prop := ∀ c ∈ s, 32 ≤ c.toNat ∧ c.toNat < 127

theorem loads_dumps_line {v : Value Text} (h : NoNumber v) : loads (dumps none v) = .ok v := by
  have hws : skipWhitespace ([] : Text) = [] := rfl
  simpa using loads_dumps none h hws

theorem noNumber_texts (l : List Text) : NoNumber (texts l) := by
  refine .array fun v hv => ?_
  obtain ⟨s, -, rfl⟩ := List.mem_map.mp hv
  exact .string s

theorem deserializeKeys_serializeKeys (request : Efi.Worker.Request Text) (hown : request.OwnAction)
    (htexts : ∀ e ∈ (Efi.Worker.serialize request).items, NoNumber e.2) :
    deserializeKeys (serializeKeys request) = .ok request ∧ IsPlainLine (serializeKeys request) := by
  have hvalue : NoNumber (.object (Efi.Worker.serialize request).items) := .object htexts
  refine ⟨?_, printable_dumps hvalue⟩
  have hdict : Dict.ofList (Efi.Worker.serialize request).items = Efi.Worker.serialize request :=
    Dict.ext (Dict.items_ofList (Efi.Worker.serialize request).nodup)
  rw [deserializeKeys, serializeKeys, loads_dumps_line hvalue]
  dsimp only
  rw [hdict, Efi.Worker.deserialize_serialize request hown]
  rfl

theorem deserializeKargs_serializeKargs (request : Kargs.Uki.SetKargs) :
    deserializeKargs (serializeKargs request) = .ok (texts request.add, texts request.remove) ∧
      IsPlainLine (serializeKargs request) := by
  have hvalue : NoNumber (.object [(addField, texts request.add), (removeField, texts request.remove)]) := by
    refine .object fun m hm => ?_
    rcases List.mem_pair.mp hm with rfl | rfl
    · exact noNumber_texts _
    · exact noNumber_texts _
  refine ⟨?_, printable_dumps hvalue⟩
  have hnodup : ([(addField, texts request.add), (removeField, texts request.remove)].map Prod.fst).Nodup := by
    show [addField, removeField].Nodup
    decide
  have hget : ∀ e ∈ [(addField, texts request.add), (removeField, texts request.remove)],
      (Dict.ofList [(addField, texts request.add), (removeField, texts request.remove)]).get e.1 = some e.2 :=
    fun e he => Dict.get_of_mem_items ((Dict.items_ofList hnodup).symm ▸ he)
  have hkeys : ∀ k ∈ (Dict.ofList [(addField, texts request.add), (removeField, texts request.remove)]).keys,
      k = addField ∨ k = removeField := by
    rw [Dict.keys, Dict.items_ofList hnodup]
    exact fun k hk => List.mem_pair.mp hk
  rw [deserializeKargs, serializeKargs, loads_dumps_line hvalue]
  dsimp only
  rw [hget _ List.mem_cons_self, hget _ (List.mem_cons_of_mem _ List.mem_cons_self)]
  exact if_pos hkeys

/-- CORRECT: whatever texts are in a request to one of the two workers, the worker reads it as it was
    sent, and what is sent is one line of printable ASCII. -/
theorem requests_roundTrip (request : Efi.Worker.Request Text) (kargs : Kargs.Uki.SetKargs) (hown : request.OwnAction)
    (htexts : ∀ e ∈ (Efi.Worker.serialize request).items, ∃ s, e.2 = .string s) :
    (deserializeKeys (serializeKeys request) = .ok request ∧ IsPlainLine (serializeKeys request)) ∧
    deserializeKargs (serializeKargs kargs) = .ok (texts kargs.add, texts kargs.remove) ∧
      IsPlainLine (serializeKargs kargs) := by
  refine ⟨deserializeKeys_serializeKeys request hown fun e he => ?_, deserializeKargs_serializeKargs kargs⟩
  obtain ⟨s, hs⟩ := htexts e he
  exact hs ▸ .string s

/-- A certificate with a password in Cyrillic. -/
def mokRequest : Efi.Worker.Request Text where
  cls := .enrollMokKey
  fields :=
    { asdict := .ofList [("action", .string Efi.Worker.enrollMokKey), ("der", .string "/usr/share/akmods.der"),
        ("password", .string "пароль\"\\")]
      keys := by decide }

theorem requests_roundTrip_mokRequest :
    (deserializeKeys (serializeKeys mokRequest) = .ok mokRequest ∧ IsPlainLine (serializeKeys mokRequest)) ∧
    deserializeKargs (serializeKargs ⟨["quiet"], []⟩) = .ok (texts ["quiet"], texts []) ∧
      IsPlainLine (serializeKargs ⟨["quiet"], []⟩) := by
  refine requests_roundTrip mokRequest ⟨["quiet"], []⟩ rfl fun e he => ?_
  have hitems : e ∈ [(("action" : Text), Value.string Efi.Worker.enrollMokKey),
      ("der", .string "/usr/share/akmods.der"),
      ("password", .string "пароль\"\\")] := he
  simp only [List.mem_cons, List.not_mem_nil, or_false] at hitems
  rcases hitems with rfl | rfl | rfl <;> exact ⟨_, rfl⟩

end Requests
