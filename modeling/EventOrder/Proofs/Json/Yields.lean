import EventOrder.Json.Record
import EventOrder.Json.Tree

/-!
# What readers yield

A property that every value has that a reader yields, whatever it reads. A property of the items of
a list, of the fields of an object or of the draft of a record carries over to the whole, and a tree
that was read is nested no deeper than the reader goes.
-/

namespace EventOrder.Json

namespace Reader

variable {α β δ : Type} {good : α → Prop}

/-- Every value that the reader takes off a text has the property. -/
def Yields (reader : Reader α) (good : α → Prop) : Prop :=
  ∀ cursor value after, reader cursor = .done value after → good value

/-- Nothing is read. -/
theorem yields_pure {value : α} (h : good value) : (pure value : Reader α).Yields good := by
  intro cursor other after hread
  obtain ⟨rfl, -⟩ := Result.done.inj hread
  exact h

/-- What the first reader yields is known when the next one starts. -/
theorem Yields.bind {first : Reader β} {next : β → Reader α} {known : β → Prop}
    (hfirst : first.Yields known) (hnext : ∀ value, known value → (next value).Yields good) :
    (first >>= next).Yields good := by
  intro cursor last after hread
  change Reader.bind first next cursor = _ at hread
  unfold Reader.bind at hread
  split at hread
  · rename_i value between hbetween
    exact hnext value (hfirst cursor value between hbetween) between last after hread
  · exact absurd hread (by simp)
  · exact absurd hread (by simp)

/-- It may make no difference what the first reader yields. -/
theorem yields_bind {first : Reader β} {next : β → Reader α}
    (hnext : ∀ value, (next value).Yields good) : (first >>= next).Yields good :=
  Yields.bind (fun _ _ _ _ => trivial) fun value (_ : True) => hnext value

/-- Less may be said of what a reader yields. -/
theorem Yields.mono {reader : Reader α} {known : α → Prop} (h : reader.Yields known)
    (himp : ∀ value, known value → good value) : reader.Yields good :=
  fun cursor value after hread => himp value (h cursor value after hread)

/-- A failure yields nothing. -/
theorem yields_fail (fault : SyntaxFault) : (fail fault : Reader α).Yields good :=
  fun _ _ _ hread => absurd hread (by simp [fail])

/-- A failure further on yields nothing. -/
theorem yields_failAhead (fault : SyntaxFault) : (failAhead fault : Reader α).Yields good :=
  fun _ _ _ hread => absurd hread (by simp [failAhead])

/-- A refusal yields nothing. -/
theorem yields_refuse (fault : ShapeFault) : (refuse fault : Reader α).Yields good :=
  fun _ _ _ hread => absurd hread (by simp [refuse])

/-- What is accepted is yielded. -/
theorem yields_ofExcept {result : Except ShapeFault α}
    (h : ∀ value, result = .ok value → good value) : (ofExcept result).Yields good := by
  cases result with
  | ok value => exact yields_pure (h value rfl)
  | error fault => exact yields_refuse fault

/-- It makes no difference where a misfit is reported. -/
theorem Yields.placed {reader : Reader α} (h : reader.Yields good) :
    (placed reader).Yields good := by
  intro cursor value after hread
  unfold Reader.placed at hread
  split at hread
  · exact absurd hread (by simp)
  · exact h cursor value after hread

/-- What is not there is not yielded. -/
theorem yields_mismatched (expected : String) : (mismatched expected : Reader α).Yields good :=
  Yields.placed (yields_bind fun _ => yields_refuse _)

/-- The inside of a bracketed value is yielded. -/
theorem Yields.enclosed {close : Cursor → Cursor × Option Fault} {inside : Reader α}
    (h : inside.Yields good) : (enclosed close inside).Yields good := by
  intro cursor value after hread
  unfold Reader.enclosed at hread
  split at hread
  · exact absurd hread (by simp)
  · exact absurd hread (by simp)
  · rename_i other between hinside
    split at hread
    · exact absurd hread (by simp)
    · obtain ⟨rfl, -⟩ := Result.done.inj hread
      exact h cursor other between hinside

/-- So it is when brackets may still be opened. -/
theorem yields_entered {close : Cursor → Cursor × Option Fault} {inside : Nat → Reader α}
    {depth : Nat} (h : ∀ left, depth = left + 1 → (inside left).Yields good) :
    (entered depth close inside).Yields good := by
  cases depth with
  | zero => exact yields_failAhead _
  | succ depth => exact Yields.enclosed (yields_bind fun _ => h depth rfl)

/-- A value is read by its first character. -/
theorem yields_byFirst {read : Char → Reader α} (h : ∀ c, (read c).Yields good) :
    (byFirst read).Yields good := by
  refine yields_bind fun first => ?_
  cases first with
  | none => exact yields_failAhead _
  | some c => exact h c

/-- The items of a list have what every item has. -/
theorem Yields.elements {element : Reader α} (h : element.Yields good) (most : Nat) (first : Bool)
    {soFar : List α} (hsoFar : ∀ value ∈ soFar, good value) :
    (elements element most first soFar).Yields fun values => ∀ value ∈ values, good value := by
  induction most generalizing first soFar with
  | zero => exact yields_fail _
  | succ most ih =>
    refine yields_bind fun follows => ?_
    cases follows with
    | false => exact yields_pure fun value hvalue => hsoFar value (List.mem_reverse.mp hvalue)
    | true =>
      refine h.bind fun value hvalue => ih false ?_
      exact List.forall_mem_cons.mpr ⟨hvalue, hsoFar⟩

/-- So do the items of a list with its brackets. -/
theorem yields_list {element : Nat → Reader α} {depth : Nat} (most : Nat)
    (h : ∀ left, depth = left + 1 → (element left).Yields good) :
    (list most depth element).Yields fun values => ∀ value ∈ values, good value := by
  refine yields_byFirst fun c => ?_
  split
  · exact yields_entered fun left hleft =>
      (h left hleft).elements most true fun value hvalue => absurd hvalue List.not_mem_nil
  · exact yields_mismatched _

/-- The fields of an object have what every value has. -/
theorem Yields.entries {value : Reader α} (h : value.Yields good) (most : Nat) (first : Bool)
    {soFar : List (String × α)} (hsoFar : ∀ field ∈ soFar, good field.2) :
    (entries value most first soFar).Yields fun fields => ∀ field ∈ fields, good field.2 := by
  induction most generalizing first soFar with
  | zero => exact yields_fail _
  | succ most ih =>
    refine yields_bind fun key? => ?_
    cases key? with
    | none => exact yields_pure fun field hfield => hsoFar field (List.mem_reverse.mp hfield)
    | some key =>
      refine yields_bind fun _ => h.bind fun item hitem => ih false ?_
      exact List.forall_mem_cons.mpr ⟨hitem, hsoFar⟩

section Record

variable {holds : δ → Prop} {declared : List (Field δ)} {depth : Nat}

/-- What every field keeps of a draft is kept when fields are read in order. -/
theorem yields_fieldsInOrder (expected : String)
    (hfields : ∀ field ∈ declared, ∀ draft, holds draft →
      (field.read depth draft).Yields holds)
    (index : Nat) (first : Bool) {draft : δ} (hdraft : holds draft) :
    (fieldsInOrder expected depth declared index first draft).Yields holds := by
  induction declared generalizing index first draft with
  | nil => exact yields_pure hdraft
  | cons field declared ih =>
    obtain ⟨hfield, hrest⟩ := List.forall_mem_cons.mp hfields
    refine yields_bind fun follows => ?_
    cases follows with
    | true => exact (hfield draft hdraft).bind fun next hnext => ih hrest _ _ hnext
    | false =>
      simp only [Bool.false_eq_true, if_false]
      split
      · exact ih hrest _ _ hdraft
      · exact yields_refuse _

/-- It is kept when fields are read by their names. -/
theorem yields_fieldsByName (most : Nat)
    (hfields : ∀ field ∈ declared, ∀ draft, holds draft →
      (field.read depth draft).Yields holds)
    (steps : Nat) (first : Bool) {draft : δ} (hdraft : holds draft) :
    (fieldsByName most depth declared steps first draft).Yields holds := by
  induction steps generalizing first draft with
  | zero => exact yields_fail _
  | succ steps ih =>
    refine yields_bind fun key? => ?_
    cases key? with
    | none => exact yields_pure hdraft
    | some key =>
      simp only
      split
      · exact yields_bind fun _ => yields_bind fun _ => ih false hdraft
      · rename_i field hfind
        split
        · exact yields_refuse _
        · exact yields_bind fun _ =>
            (hfields field (List.mem_of_find?_eq_some hfind) draft hdraft).bind fun next hnext =>
              ih false hnext

/-- A record has what its last draft makes of it. -/
theorem yields_record {shape : RecordShape δ α} (holds : δ → Prop) (most : Nat)
    (hdraft : holds shape.draft)
    (hfields : ∀ left, depth = left + 1 → ∀ field ∈ shape.fields, ∀ draft, holds draft →
      (field.read left draft).Yields holds)
    (hfinish : ∀ draft, holds draft → ∀ value, shape.finish draft = .ok value → good value) :
    (record most depth shape).Yields good := by
  have hmakes (draft : δ) (h : holds draft) : (ofExcept (shape.finish draft)).Yields good :=
    yields_ofExcept (hfinish draft h)
  refine yields_byFirst fun c => ?_
  split
  · exact yields_entered fun left hleft =>
      (yields_fieldsInOrder _ (hfields left hleft) 0 true hdraft).bind hmakes
  · split
    · exact yields_entered fun left hleft =>
        (yields_fieldsByName most (hfields left hleft) most true hdraft).bind hmakes
    · exact yields_mismatched _

/-- What is read off a whole text has what the reader yields. -/
theorem Yields.readAll {reader : Nat → Nat → Reader α} {source : String} {value : α}
    (h : (reader source.toList.length deepest).Yields good)
    (hread : readAll reader source = .ok value) : good value := by
  unfold Reader.readAll at hread
  simp only at hread
  split at hread
  · exact absurd hread (by simp)
  · exact absurd hread (by simp)
  · rename_i other cursor hplaced
    split at hread
    · obtain rfl := Except.ok.inj hread
      exact h.placed _ other cursor hplaced
    · exact absurd hread (by simp)

end Record

end Reader

namespace Tree

/-- A tree in which lists and objects are nested at most so deep. -/
inductive Nests : Nat → Tree → Prop
  | null {depth : Nat} : Nests depth .null
  | boolean {depth : Nat} (value : Bool) : Nests depth (.boolean value)
  | number {depth : Nat} (value : Number) : Nests depth (.number value)
  | text {depth : Nat} (value : String) : Nests depth (.text value)
  | list {depth : Nat} {items : List Tree} (hitems : ∀ item ∈ items, Nests depth item) :
    Nests (depth + 1) (.list items)
  | object {depth : Nat} {fields : List (String × Tree)}
    (hfields : ∀ field ∈ fields, Nests depth field.2) : Nests (depth + 1) (.object fields)

/-- What is neither a list nor an object is not nested. -/
private theorem yields_leaf (depth : Nat) : Reader.tree.leaf.Yields (Nests depth) := by
  refine Reader.yields_bind fun found => ?_
  cases found <;> exact Reader.yields_pure (by constructor)

/-- A tree is nested no deeper than the reader goes. -/
theorem yields_tree (most depth : Nat) : (Reader.tree most depth).Yields (Nests depth) := by
  induction depth with
  | zero =>
    refine Reader.yields_byFirst fun c => ?_
    split
    · exact Reader.yields_failAhead _
    · exact yields_leaf 0
  | succ depth ih =>
    refine Reader.yields_byFirst fun c => ?_
    split
    · refine Reader.Yields.enclosed (Reader.yields_bind fun _ => ?_)
      exact (ih.elements most true (by simp)).bind fun items hitems =>
        Reader.yields_pure (.list hitems)
    · split
      · refine Reader.Yields.enclosed (Reader.yields_bind fun _ => ?_)
        exact (ih.entries most true (by simp)).bind fun fields hfields =>
          Reader.yields_pure (.object hfields)
      · exact yields_leaf (depth + 1)

end Tree

end EventOrder.Json
