import Secureblue.Py.Dict
import Secureblue.Py.Text

/-! Data classes (`dataclasses.dataclass`) all of whose fields have defaults: construction from keyword
    arguments and `asdict`.

    The constructor refuses an argument that is no field, but fills in a field without an argument, so it
    gives the arguments back exactly when none is missing (`same_asdict_iff`). -/

namespace Py

/-- The fields of a data class in order, with their defaults. -/
structure DataClass (V : Type) where
  fields : List (Text × V)
  nodup : (fields.map Prod.fst).Nodup

namespace DataClass
variable {V : Type}

/-- The names of the fields. -/
def names (cls : DataClass V) : List Text := cls.fields.map Prod.fst

/-- An instance has a value for each of its fields, in order. -/
structure Instance (cls : DataClass V) where
  asdict : Dict Text V
  keys : asdict.keys = cls.names

/-- The value of every field: its keyword argument, or the default. -/
def arguments (cls : DataClass V) (data : Dict Text V) : List (Text × V) :=
  cls.fields.map fun f => (f.1, (data.get f.1).getD f.2)

theorem names_arguments (cls : DataClass V) (data : Dict Text V) : (cls.arguments data).map Prod.fst = cls.names := by
  rw [arguments, List.map_map]
  rfl

theorem nodup_arguments (cls : DataClass V) (data : Dict Text V) : ((cls.arguments data).map Prod.fst).Nodup := by
  rw [names_arguments]
  exact cls.nodup

/-- `cls(**data)`, or `none` for the `TypeError` of an unexpected keyword argument. -/
def new (cls : DataClass V) (data : Dict Text V) : Option cls.Instance :=
  if ∀ k ∈ data.keys, k ∈ cls.names then
    some ⟨.ofList (cls.arguments data), by
      rw [Dict.keys, Dict.items_ofList (cls.nodup_arguments data), names_arguments]⟩
  else none

section
variable {cls : DataClass V} {data : Dict Text V}

theorem new_isSome : (cls.new data).isSome ↔ ∀ k ∈ data.keys, k ∈ cls.names := by
  rw [new]
  split
  · next h => exact iff_of_true rfl h
  · next h => exact iff_of_false Bool.false_ne_true h

theorem mem_keys_asdict (i : cls.Instance) {k : Text} : k ∈ i.asdict.keys ↔ k ∈ cls.names := by
  rw [i.keys]

/-- A field of a new instance has the value of its argument, or the default. -/
theorem get_new {i : cls.Instance} (h : cls.new data = some i) {f : Text × V} (hf : f ∈ cls.fields) :
    i.asdict.get f.1 = some ((data.get f.1).getD f.2) := by
  rw [new] at h
  split at h
  · cases h
    refine Dict.get_of_mem_items ?_
    rw [Dict.items_ofList (cls.nodup_arguments data)]
    exact List.mem_map_of_mem hf
  · cases h

theorem Instance.eq_of_same {i j : cls.Instance} (h : i.asdict.Same j.asdict) : i = j := by
  have hdict : i.asdict = j.asdict := h.eq (i.keys.trans j.keys.symm)
  cases i
  cases j
  cases hdict
  rfl

/-- The fields of an instance are the arguments if none of them is missing. -/
theorem same_asdict_iff {i : cls.Instance} (h : cls.new data = some i) :
    i.asdict.Same data ↔ ∀ k ∈ cls.names, k ∈ data.keys := by
  constructor
  · intro hsame k hk
    exact hsame.mem_keys.mp ((mem_keys_asdict i).mpr hk)
  · intro hall k
    by_cases hk : k ∈ cls.names
    · obtain ⟨f, hf, rfl⟩ := List.mem_map.mp hk
      obtain ⟨v, hv⟩ := Option.isSome_iff_exists.mp (Dict.mem_keys.mp (hall f.1 hk))
      rw [get_new h hf, hv, Option.getD_some]
    · have hnew : (cls.new data).isSome := by rw [h]; rfl
      have hdata : k ∉ data.keys := fun hmem => hk (new_isSome.mp hnew k hmem)
      rw [← mem_keys_asdict i] at hk
      rw [Dict.mem_keys, Option.not_isSome_iff_eq_none] at hk hdata
      rw [hk, hdata]

/-- Arguments that are the fields of some instance are those of the one they make. -/
theorem new_of_same {i : cls.Instance} (h : i.asdict.Same data) : cls.new data = some i := by
  have hsome : (cls.new data).isSome :=
    new_isSome.mpr fun k hk => (mem_keys_asdict i).mp (h.mem_keys.mpr hk)
  obtain ⟨j, hj⟩ := Option.isSome_iff_exists.mp hsome
  have hall : ∀ k ∈ cls.names, k ∈ data.keys := fun k hk => h.mem_keys.mp ((mem_keys_asdict i).mpr hk)
  have hsame := (same_asdict_iff hj).mpr hall
  rw [hj, Instance.eq_of_same fun k => (hsame k).trans (h k).symm]

/-- Taken apart and put together again, an instance is the same. -/
theorem new_asdict (i : cls.Instance) : cls.new i.asdict = some i := new_of_same fun _ => rfl

end

end DataClass

end Py
