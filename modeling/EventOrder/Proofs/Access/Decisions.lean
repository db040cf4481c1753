import EventOrder.Access.Filter
import Mathlib.Data.List.Infix

/-!
# Decisions of a filter that remembers

A filter by patterns remembers its decision for every field that it was asked about. What it answers
is nevertheless decided by the patterns and the accesses asked about so far: an access is tracked
unless its field matches a pattern, or a write excluded the field, now or earlier. So a decision to
track a field never outlives a write that excludes it, and the decisions on one field are the same
whatever is asked about other fields.
-/

namespace EventOrder

namespace PatternLists

variable {patterns : PatternLists} {field : String}

/-- The field begins or ends with a pattern for this, or contains one. -/
def Matches (patterns : PatternLists) (field : String) : Prop :=
  (∃ pattern ∈ patterns.startsWith, pattern.toList <+: field.toList) ∨
    (∃ pattern ∈ patterns.endsWith, pattern.toList <:+ field.toList) ∨
    ∃ pattern ∈ patterns.contains, pattern.toList <:+: field.toList

/-- The field begins with a pattern for written fields. -/
def MatchesWritten (patterns : PatternLists) (field : String) : Prop :=
  ∃ pattern ∈ patterns.writeStartsWith, pattern.toList <+: field.toList

instance (patterns : PatternLists) (field : String) : Decidable (patterns.Matches field) :=
  inferInstanceAs (Decidable (_ ∨ _ ∨ _))

instance (patterns : PatternLists) (field : String) : Decidable (patterns.MatchesWritten field) :=
  inferInstanceAs (Decidable (∃ _ ∈ _, _))

/-- Characters occur in a text when they are a part of it. -/
theorem occursIn_iff {pattern text : List Char} :
    occursIn pattern text = true ↔ pattern <:+: text := by
  induction text with
  | nil => simp [occursIn]
  | cons c rest ih =>
    rw [occursIn, Bool.or_eq_true, ih, List.isPrefixOf_iff_prefix, List.infix_cons_iff]

/-- Accesses of either kind are excluded when the field matches. -/
theorem excludes_iff : patterns.excludes field = true ↔ patterns.Matches field := by
  simp only [excludes, Matches, begins, ends, Bool.or_eq_true, List.any_eq_true,
    List.isPrefixOf_iff_prefix, List.isSuffixOf_iff_suffix, occursIn_iff, or_assoc]

/-- Writes are excluded when the field matches a pattern for written fields. -/
theorem excludesWritten_iff :
    patterns.excludesWritten field = true ↔ patterns.MatchesWritten field := by
  simp only [excludesWritten, MatchesWritten, begins, List.any_eq_true, List.isPrefixOf_iff_prefix]

/-- The access is one for which its field is not tracked, then and later. -/
def Drops (patterns : PatternLists) (access : Access) : Prop :=
  patterns.Matches access.field ∨ access.isWrite = true ∧ patterns.MatchesWritten access.field

/-- Among the accesses asked about is one for which the field is not tracked. -/
def Dropped (patterns : PatternLists) (asked : List Access) (field : String) : Prop :=
  ∃ access ∈ asked, access.field = field ∧ patterns.Drops access

/-- One more access may drop its own field. -/
theorem dropped_append_singleton {asked : List Access} {access : Access} :
    patterns.Dropped (asked ++ [access]) field ↔
      patterns.Dropped asked field ∨ access.field = field ∧ patterns.Drops access := by
  simp only [Dropped, List.mem_append, List.mem_singleton, or_and_right, exists_or,
    exists_eq_left]

/-- Only accesses to a field can drop it. -/
theorem dropped_filter {asked : List Access} :
    patterns.Dropped (asked.filter (·.field = field)) field ↔ patterns.Dropped asked field := by
  simp only [Dropped, List.mem_filter, decide_eq_true_eq]
  constructor
  · rintro ⟨access, ⟨hasked, -⟩, hdrops⟩
    exact ⟨access, hasked, hdrops⟩
  · rintro ⟨access, hasked, hfield, hdrops⟩
    exact ⟨access, ⟨hasked, hfield⟩, hfield, hdrops⟩

end PatternLists

namespace PatternFilter

variable {filter other : PatternFilter} {patterns : PatternLists} {asked more : List Access}

/-- Asks the filter about accesses in turn. -/
def decisions (filter : PatternFilter) : List Access → List Bool
  | [] => []
  | access :: accesses =>
    (filter.consider access).1 :: (filter.consider access).2.decisions accesses

/-- What a filter has in memory once it was asked about accesses. -/
structure Remembers (filter : PatternFilter) (patterns : PatternLists) (asked : List Access) :
    Prop where
  /-- The patterns stay. -/
  patterns_eq : filter.patterns = patterns
  /-- A field is dropped once it was asked about for an access that drops it. -/
  mem_dropped_iff : ∀ field, field ∈ filter.dropped ↔ patterns.Dropped asked field
  /-- No field that matches is tracked. -/
  not_matches_of_tracked : ∀ field ∈ filter.tracked, ¬patterns.Matches field

/-- A filter that was asked nothing remembers nothing. -/
theorem remembers_nil (patterns : PatternLists) : (ofPatterns patterns).Remembers patterns [] where
  patterns_eq := rfl
  mem_dropped_iff field := by simp [ofPatterns, PatternLists.Dropped]
  not_matches_of_tracked field hfield := absurd hfield Std.ExtTreeSet.not_mem_empty

/-- What a filter does with an access: it keeps to a field that it has dropped, drops the field for
the access, or tracks it. -/
theorem Remembers.consider_cases (h : filter.Remembers patterns asked) (access : Access) :
    access.field ∈ filter.dropped ∧ filter.consider access = (false, filter) ∨
    access.field ∉ filter.dropped ∧ patterns.Drops access ∧
      filter.consider access = filter.drop access.field ∨
    access.field ∉ filter.dropped ∧ ¬patterns.Drops access ∧
      (filter.consider access = (true, filter) ∨
        filter.consider access = filter.track access.field) := by
  have hmatches : filter.patterns.excludes access.field = true ↔ patterns.Matches access.field := by
    rw [h.patterns_eq, PatternLists.excludes_iff]
  have hwritten : (access.isWrite && filter.patterns.excludesWritten access.field) = true ↔
      access.isWrite = true ∧ patterns.MatchesWritten access.field := by
    rw [h.patterns_eq, Bool.and_eq_true, PatternLists.excludesWritten_iff]
  unfold consider
  by_cases hdropped : access.field ∈ filter.dropped
  · left
    simp [hdropped]
  right
  by_cases hwrite : access.isWrite = true ∧ patterns.MatchesWritten access.field
  · left
    refine ⟨hdropped, .inr hwrite, ?_⟩
    simp [hdropped, hwritten.mpr hwrite]
  by_cases htracked : access.field ∈ filter.tracked
  · -- A field that is tracked was found not to match, so it need not be looked at again.
    right
    refine ⟨hdropped, ?_, .inl ?_⟩
    · rintro (hmatch | hdrops)
      · exact h.not_matches_of_tracked _ htracked hmatch
      · exact hwrite hdrops
    · simp [hdropped, mt hwritten.mp hwrite, htracked]
  by_cases hmatch : patterns.Matches access.field
  · left
    refine ⟨hdropped, .inl hmatch, ?_⟩
    simp [hdropped, mt hwritten.mp hwrite, htracked, hmatches.mpr hmatch]
  · right
    refine ⟨hdropped, ?_, .inr ?_⟩
    · rintro (hmatches | hdrops)
      · exact hmatch hmatches
      · exact hwrite hdrops
    · simp [hdropped, mt hwritten.mp hwrite, htracked, mt hmatches.mp hmatch]

/-- An access is tracked unless its field is dropped for it, or was for an earlier access. -/
theorem Remembers.consider_iff (h : filter.Remembers patterns asked) (access : Access) :
    (filter.consider access).1 = true ↔ ¬patterns.Dropped (asked ++ [access]) access.field := by
  rw [PatternLists.dropped_append_singleton, ← h.mem_dropped_iff]
  rcases h.consider_cases access with
    ⟨hdropped, hanswer⟩ | ⟨-, hdrops, hanswer⟩ | ⟨hdropped, hdrops, hanswer | hanswer⟩
  · simp [hanswer, hdropped]
  · simp [hanswer, hdrops, drop]
  · simp [hanswer, hdropped, hdrops]
  · simp [hanswer, hdropped, hdrops, track]

/-- The filter to ask next remembers the access as well. -/
theorem Remembers.consider (h : filter.Remembers patterns asked) (access : Access) :
    (filter.consider access).2.Remembers patterns (asked ++ [access]) := by
  have hkept (hdrops : access.field ∈ filter.dropped ∨ ¬patterns.Drops access) (field : String) :
      field ∈ filter.dropped ↔ patterns.Dropped (asked ++ [access]) field := by
    rw [PatternLists.dropped_append_singleton, ← h.mem_dropped_iff]
    grind
  rcases h.consider_cases access with
    ⟨hdropped, hanswer⟩ | ⟨-, hdrops, hanswer⟩ | ⟨-, hdrops, hanswer | hanswer⟩ <;>
    rw [hanswer]
  · exact ⟨h.patterns_eq, hkept (.inl hdropped), h.not_matches_of_tracked⟩
  · refine ⟨h.patterns_eq, fun field => ?_, h.not_matches_of_tracked⟩
    rw [PatternLists.dropped_append_singleton, ← h.mem_dropped_iff]
    simp only [drop, Std.ExtTreeSet.mem_insert, Std.compare_eq_iff_eq, hdrops, and_true]
    exact or_comm
  · exact ⟨h.patterns_eq, hkept (.inr hdrops), h.not_matches_of_tracked⟩
  · refine ⟨h.patterns_eq, hkept (.inr hdrops), fun field hfield => ?_⟩
    simp only [track, Std.ExtTreeSet.mem_insert, Std.compare_eq_iff_eq] at hfield
    rcases hfield with rfl | hfield
    · exact fun hmatches => hdrops (.inl hmatches)
    · exact h.not_matches_of_tracked field hfield

/-- There is one decision for each access. -/
theorem length_decisions (filter : PatternFilter) (accesses : List Access) :
    (filter.decisions accesses).length = accesses.length := by
  induction accesses generalizing filter with
  | nil => rfl
  | cons access accesses ih => simp [decisions, ih]

/-- Each access is decided on by the patterns and by the accesses up to it. -/
theorem Remembers.getElem?_decisions_iff (h : filter.Remembers patterns asked)
    (accesses : List Access) {i : Nat} {access : Access} (haccess : accesses[i]? = some access) :
    (filter.decisions accesses)[i]? = some true ↔
      ¬patterns.Dropped (asked ++ accesses.take (i + 1)) access.field := by
  induction accesses generalizing filter asked i with
  | nil => simp at haccess
  | cons first accesses ih =>
    cases i with
    | zero =>
      obtain rfl : first = access := by simpa using haccess
      simpa [decisions] using h.consider_iff first
    | succ i =>
      simpa [decisions] using ih (h.consider first) (by simpa using haccess)

/-- The decisions on one field are those of a filter that is asked about this field alone. -/
theorem Remembers.decisions_of_field (h : filter.Remembers patterns asked)
    {field : String} (hother : other.Remembers patterns (asked.filter (·.field = field)))
    (accesses : List Access) :
    ((accesses.zip (filter.decisions accesses)).filter (·.1.field = field)).map (·.2) =
      other.decisions (accesses.filter (·.field = field)) := by
  induction accesses generalizing filter other asked with
  | nil => rfl
  | cons access accesses ih =>
    by_cases hfield : access.field = field
    · have hsame : (filter.consider access).1 = (other.consider access).1 := by
        rw [Bool.eq_iff_iff, h.consider_iff, hother.consider_iff,
          PatternLists.dropped_append_singleton, PatternLists.dropped_append_singleton, hfield,
          PatternLists.dropped_filter]
      have hasked : (other.consider access).2.Remembers patterns
          ((asked ++ [access]).filter (·.field = field)) := by
        simpa [List.filter_append, hfield] using hother.consider access
      have hlater := ih (h.consider access) hasked
      simp [decisions, hfield, hsame, hlater]
    · have hasked : other.Remembers patterns ((asked ++ [access]).filter (·.field = field)) := by
        simpa [List.filter_append, hfield] using hother
      have hlater := ih (h.consider access) hasked
      simp [decisions, hfield, hlater]

/-- The accesses up to a position are those found at no later one. -/
private theorem mem_take {accesses : List Access} {i : Nat} {access : Access} :
    access ∈ accesses.take (i + 1) ↔ ∃ j ≤ i, accesses[j]? = some access := by
  rw [List.mem_iff_getElem?]
  constructor
  · rintro ⟨j, hj⟩
    rw [List.getElem?_take] at hj
    split at hj
    · exact ⟨j, by omega, hj⟩
    · simp at hj
  · rintro ⟨j, hj, haccess⟩
    exact ⟨j, by rw [List.getElem?_take, if_pos (by omega), haccess]⟩

/-- A filter that remembers its decisions decides like one without a memory: an access is tracked
exactly when its field matches no pattern and none of the accesses up to it is a write for which the
field is excluded. The accesses to other fields have no part in it. -/
theorem decisions_are_plain (patterns : PatternLists) (accesses : List Access) :
    ((ofPatterns patterns).decisions accesses).length = accesses.length ∧
    (∀ (i : Nat) (access : Access), accesses[i]? = some access →
      (((ofPatterns patterns).decisions accesses)[i]? = some true ↔
        ¬patterns.Matches access.field ∧
          ∀ j ≤ i, ∀ earlier : Access, accesses[j]? = some earlier →
            earlier.field = access.field →
              ¬(earlier.isWrite = true ∧ patterns.MatchesWritten access.field))) ∧
    ∀ field : String,
      ((accesses.zip ((ofPatterns patterns).decisions accesses)).filter
          (·.1.field = field)).map (·.2) =
        (ofPatterns patterns).decisions (accesses.filter (·.field = field)) := by
  have hstart := remembers_nil patterns
  refine ⟨length_decisions _ _, fun i access haccess => ?_, fun field =>
    hstart.decisions_of_field hstart accesses⟩
  rw [hstart.getElem?_decisions_iff accesses haccess, List.nil_append]
  constructor
  · intro hkept
    refine ⟨fun hmatches => ?_, fun j hj earlier hearlier hfield hwritten => ?_⟩
    · exact hkept ⟨access, mem_take.mpr ⟨i, Nat.le_refl i, haccess⟩, rfl, .inl hmatches⟩
    · exact hkept ⟨earlier, mem_take.mpr ⟨j, hj, hearlier⟩, hfield, .inr (hfield ▸ hwritten)⟩
  · rintro ⟨hmatches, hwritten⟩ ⟨earlier, hasked, hfield, hdrops⟩
    obtain ⟨j, hj, hearlier⟩ := mem_take.mp hasked
    rw [PatternLists.Drops, hfield] at hdrops
    exact hdrops.elim hmatches (hwritten j hj earlier hearlier hfield)

/-- Event queues are noise once they are written. -/
def queuesOnceWritten : PatternLists := { PatternLists.empty with writeStartsWith := ["Event"] }

/-- A queue that was tracked is dropped by a write, and its later reads with it; another field that
is written goes on being tracked. -/
theorem decisions_are_plain_queuesOnceWritten :
    let accesses : List Access := [⟨.read, "EventQueue.head", ⟨1⟩⟩, ⟨.write, "App.count", ⟨2⟩⟩,
      ⟨.write, "EventQueue.head", ⟨3⟩⟩, ⟨.read, "EventQueue.head", ⟨1⟩⟩, ⟨.read, "App.count", ⟨2⟩⟩]
    let decisions := (ofPatterns queuesOnceWritten).decisions accesses
    decisions = [true, true, false, false, true] ∧
      accesses[3]? = some ⟨.read, "EventQueue.head", ⟨1⟩⟩ ∧
      (decisions[3]? = some true ↔ ¬queuesOnceWritten.Matches "EventQueue.head" ∧
        ∀ j ≤ 3, ∀ earlier : Access, accesses[j]? = some earlier →
          earlier.field = "EventQueue.head" →
            ¬(earlier.isWrite = true ∧ queuesOnceWritten.MatchesWritten "EventQueue.head")) := by
  intro accesses decisions
  have hread : accesses[3]? = some ⟨.read, "EventQueue.head", ⟨1⟩⟩ := rfl
  exact ⟨by decide +kernel, hread, (decisions_are_plain queuesOnceWritten accesses).2.1 3 _ hread⟩

end PatternFilter

end EventOrder
