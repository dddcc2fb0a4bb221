import AstraVeil.Lib.Utf16

/-!
# Lenient JSON and the classes decoded from it

The tree of a lenient JSON text, where strings need no quotes, and the decoding of a class with
declared fields: unknown keys are ignored, a field without a key has its default, a key that occurs
more than once is decoded each time and the last value stands.

* `text`, `listOf`: values of the types `String` and `List`;
* `field`: a declared field of an object;
* `field_eq_some_iff`: it is the last occurrence, if all of them can be decoded.
-/

namespace AstraVeil.LenientJson

open Utf16

/-- The tree of a text.  `skipped` is a value that only an unknown key may have. -/
inductive JsonTree
  | literal (text : JString)
  | string (text : JString)
  | array (items : List JsonTree)
  | object (fields : List (JString × JsonTree))
  | skipped

variable {α β : Type}

/-- A `String`: quoted or not, but not the literal `null`. -/
def text : JsonTree → Option JString
  | .string s => some s
  | .literal s => if s = ofString "null" then none else some s
  | _ => none

/-- A `List`. -/
def listOf (decode : JsonTree → Option α) : JsonTree → Option (List α)
  | .array items => items.mapM decode
  | _ => none

/-- The fields of an object. -/
def fieldsOf : JsonTree → Option (List (JString × JsonTree))
  | .object fields => some fields
  | _ => none

/-- The values that a key has, in the order of the text. -/
def occurrences (key : JString) (fields : List (JString × JsonTree)) : List JsonTree :=
  (fields.filter (·.1 == key)).map Prod.snd

/-- The value that a key has in the end. -/
def last (key : JString) (fields : List (JString × JsonTree)) : Option JsonTree :=
  (occurrences key fields).getLast?

/-- A declared field: nothing if a value of the key cannot be decoded, `some none` if there is no
such key. -/
def field (key : JString) (decode : JsonTree → Option α) (fields : List (JString × JsonTree)) :
    Option (Option α) :=
  ((occurrences key fields).mapM decode).map List.getLast?

/-- Every value of the key can be decoded. -/
def Decodable (key : JString) (decode : JsonTree → Option α)
    (fields : List (JString × JsonTree)) : Prop :=
  ∀ t ∈ occurrences key fields, (decode t).isSome = true

theorem mapM_eq_some_iff {f : α → Option β} {l : List α} {l' : List β} :
    l.mapM f = some l' ↔ l.map f = l'.map some := by
  induction l generalizing l' with
  | nil =>
    constructor
    · intro h
      rw [← Option.some.inj h]
      rfl
    · intro h
      rw [List.map_eq_nil_iff.1 h.symm]
      rfl
  | cons a l ih =>
    rw [List.mapM_cons]
    constructor
    · intro h
      obtain ⟨b, hb, h⟩ := Option.bind_eq_some_iff.1 h
      obtain ⟨l₁, hl, h⟩ := Option.bind_eq_some_iff.1 h
      obtain rfl := Option.some.inj h
      rw [List.map_cons, List.map_cons, hb, ih.1 hl]
    · intro h
      cases l' with
      | nil => cases h
      | cons b l₁ =>
        obtain ⟨hb, hl⟩ := List.cons.inj h
        rw [hb, ih.2 hl]
        rfl

theorem exists_mapM_iff {f : α → Option β} {l : List α} :
    (∃ l', l.mapM f = some l') ↔ ∀ a ∈ l, (f a).isSome = true := by
  constructor
  · rintro ⟨l', h⟩ a ha
    have hmem : f a ∈ l'.map some := mapM_eq_some_iff.1 h ▸ List.mem_map_of_mem ha
    obtain ⟨b, -, hb⟩ := List.mem_map.1 hmem
    rw [← hb]
    rfl
  · intro h
    refine ⟨l.filterMap f, mapM_eq_some_iff.2 ?_⟩
    rw [List.map_filterMap]
    induction l with
    | nil => rfl
    | cons a l ih =>
      obtain ⟨b, hb⟩ := Option.isSome_iff_exists.1 (h a (List.mem_cons_self ..))
      rw [List.filterMap_cons, hb, List.map_cons, hb]
      exact congrArg _ (ih fun a ha => h a (List.mem_cons_of_mem _ ha))

/-- A declared field is the last occurrence of its key. -/
theorem field_eq_some_iff {key : JString} {decode : JsonTree → Option α}
    {fields : List (JString × JsonTree)} {o : Option α} :
    field key decode fields = some o ↔
      Decodable key decode fields ∧ o = (last key fields).bind decode := by
  unfold field Decodable last
  rw [Option.map_eq_some_iff, ← exists_mapM_iff]
  have hlast : ∀ l', (occurrences key fields).mapM decode = some l' →
      l'.getLast? = (occurrences key fields).getLast?.bind decode := fun l' h => by
    have hmap := congrArg List.getLast? (mapM_eq_some_iff.1 h)
    rw [List.getLast?_map, List.getLast?_map] at hmap
    cases hl : (occurrences key fields).getLast? with
    | none =>
      rw [hl] at hmap
      exact Option.map_eq_none_iff.1 hmap.symm
    | some t =>
      rw [hl] at hmap
      obtain ⟨b, hb, hsome⟩ := Option.map_eq_some_iff.1 hmap.symm
      rw [hb]
      exact hsome
  constructor
  · rintro ⟨l', h, rfl⟩
    exact ⟨⟨l', h⟩, hlast l' h⟩
  · rintro ⟨⟨l', h⟩, rfl⟩
    exact ⟨l', h, hlast l' h⟩

/-- A list in a field: it is absent, or an array whose elements can be decoded. -/
theorem list_of_field {key : JString} {decode : JsonTree → Option α}
    {fields : List (JString × JsonTree)} {o : Option (List α)}
    (h : field key (listOf decode) fields = some o) :
    (last key fields = none ∧ o = none) ∨ ∃ items vs, last key fields = some (.array items) ∧
      items.map decode = vs.map some ∧ o = some vs := by
  obtain ⟨hdec, rfl⟩ := field_eq_some_iff.1 h
  cases hlast : last key fields with
  | none => exact .inl ⟨rfl, rfl⟩
  | some t =>
    obtain ⟨vs, hvs⟩ := Option.isSome_iff_exists.1 (hdec t (List.mem_of_getLast? hlast))
    cases t with
    | array items => exact .inr ⟨items, vs, rfl, mapM_eq_some_iff.1 hvs, hvs⟩
    | literal s => cases hvs
    | string s => cases hvs
    | object fs => cases hvs
    | skipped => cases hvs

end AstraVeil.LenientJson
