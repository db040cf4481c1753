import EventOrder.Program.OperationReader
import EventOrder.Program.Printer
import EventOrder.Proofs.Json.Records
import EventOrder.Proofs.Json.Yields

/-!
# Operations read and written

An operation opens one bracket and one more around the operations inside it, however it is written.
So an operation that was read is nested no deeper than its text, and the text that it is written in
is nested no deeper than the one that it was read from, and is read back.
-/

namespace EventOrder

open Json

/-- An operation that can be written when at most so many brackets are opened. -/
inductive Operation.Within : Nat → Operation → Prop
  | read {depth : Nat} (name : String) : Within (depth + 1) (.read name)
  | write {depth : Nat} (name : String) (value : Int64) : Within (depth + 1) (.write name value)
  | increment {depth : Nat} (name : String) (modulus : Int64) :
    Within (depth + 1) (.increment name modulus)
  | copy {depth : Nat} (source target : String) : Within (depth + 1) (.copy source target)
  | nested {depth : Nat} {body : List Operation} (hbody : ∀ inside ∈ body, Within depth inside) :
    Within (depth + 2) (.nested body)

/-- What comes of two steps comes of the second one when the first goes well. -/
theorem exists_of_bind_eq_ok {ε α β : Type} {first : Except ε α} {next : α → Except ε β}
    {last : β} (h : (first >>= next) = .ok last) :
    ∃ value, first = .ok value ∧ next value = .ok last := by
  cases first with
  | error fault => exact absurd h (by simp [bind, Except.bind])
  | ok value => exact ⟨value, rfl, h⟩

section Reading

variable {depth : Nat} {readBody : List Tree → Except ShapeFault (List Operation)}

/-- The operations inside that were read so far can be written in the brackets that are left. -/
def OperationDraft.Within (depth : Nat) (draft : OperationDraft) : Prop :=
  ∀ body, draft.body = some body → (Operation.nested body).Within (depth + 1)

/-- Only one field takes operations; the others leave those that were taken. -/
private theorem body_of_take {kind : OperationKind} {field : OperationField}
    (hfield : field ∈ OperationDraft.fields readBody kind) :
    field = OperationDraft.fields.body readBody ∨
      ∀ draft tree next, field.take draft tree = .ok next → next.body = draft.body := by
  cases kind with
  | nested => exact Or.inl (List.mem_singleton.mp hfield)
  | read =>
    obtain rfl := List.mem_singleton.mp hfield
    refine Or.inr fun draft tree next htake => ?_
    obtain ⟨name, -, hnext⟩ := exists_of_bind_eq_ok htake
    obtain rfl := Except.ok.inj hnext
    rfl
  | write | increment | copy =>
    refine Or.inr fun draft tree next htake => ?_
    rcases List.mem_cons.mp hfield with rfl | hfield
    · obtain ⟨name, -, hnext⟩ := exists_of_bind_eq_ok htake
      obtain rfl := Except.ok.inj hnext
      rfl
    · obtain rfl := List.mem_singleton.mp hfield
      obtain ⟨value, -, hnext⟩ := exists_of_bind_eq_ok htake
      obtain rfl := Except.ok.inj hnext
      rfl

variable (hbody : ∀ left items body, (∀ item ∈ items, Tree.Nests left item) →
  readBody items = .ok body → ∀ inside ∈ body, inside.Within left)

include hbody

/-- A field is taken from a tree that is nested less deep. -/
private theorem OperationDraft.Within.take {draft next : OperationDraft} (h : draft.Within depth)
    {kind : OperationKind} {field : OperationField}
    (hfield : field ∈ OperationDraft.fields readBody kind) {tree : Tree}
    (htree : Tree.Nests depth tree) (htake : field.take draft tree = .ok next) :
    next.Within depth := by
  rcases body_of_take hfield with rfl | hother
  · cases htree with
    | list hitems =>
      obtain ⟨items, hlist, htake⟩ := exists_of_bind_eq_ok htake
      obtain rfl := Except.ok.inj hlist
      obtain ⟨body, hread, hnext⟩ := exists_of_bind_eq_ok htake
      obtain rfl := Except.ok.inj hnext
      rintro other hother
      obtain rfl := Option.some.inj hother
      exact .nested (hbody _ _ body hitems hread)
    | null | boolean | number | text | object =>
      obtain ⟨body, hread, -⟩ := exists_of_bind_eq_ok htake
      exact absurd hread (by simp [Json.Tree.asList])
  · exact fun body hnext => h body ((hother draft tree next htake).symm.trans hnext)

/-- Fields are taken by their names from trees that are nested less deep. -/
private theorem OperationDraft.Within.takeNamed {draft last : OperationDraft}
    (h : draft.Within depth) {kind : OperationKind} {fields : List (String × Tree)}
    (hfields : ∀ field ∈ fields, Tree.Nests depth field.2)
    (htake : OperationDraft.takeNamed (OperationDraft.fields readBody kind) draft fields =
      .ok last) : last.Within depth := by
  induction fields generalizing draft with
  | nil =>
    obtain rfl := Except.ok.inj htake
    exact h
  | cons field fields ih =>
    obtain ⟨key, tree⟩ := field
    obtain ⟨htree, hrest⟩ := List.forall_mem_cons.mp hfields
    simp only [OperationDraft.takeNamed] at htake
    split at htake
    · exact ih h hrest htake
    · rename_i field hfind
      split at htake
      · exact absurd htake (by simp)
      · obtain ⟨next, htaken, htake⟩ := exists_of_bind_eq_ok htake
        exact ih (h.take hbody (List.mem_of_find?_eq_some hfind) htree htaken) hrest htake

/-- Fields are taken in order from trees that are nested less deep. -/
private theorem OperationDraft.Within.takeListed {draft last : OperationDraft}
    (h : draft.Within depth) {kind : OperationKind} {total : Nat} {declared : List OperationField}
    (hdeclared : ∀ field ∈ declared, field ∈ OperationDraft.fields readBody kind)
    {trees : List Tree} (htrees : ∀ tree ∈ trees, Tree.Nests depth tree)
    (htake : OperationDraft.takeListed kind total declared draft trees = .ok last) :
    last.Within depth := by
  induction declared generalizing draft trees with
  | nil =>
    cases trees with
    | nil =>
      obtain rfl := Except.ok.inj htake
      exact h
    | cons => exact absurd htake (by simp [OperationDraft.takeListed])
  | cons field declared ih =>
    cases trees with
    | nil => exact absurd htake (by simp [OperationDraft.takeListed])
    | cons tree trees =>
      obtain ⟨hfield, hothers⟩ := List.forall_mem_cons.mp hdeclared
      obtain ⟨htree, hrest⟩ := List.forall_mem_cons.mp htrees
      obtain ⟨next, htaken, htake⟩ := exists_of_bind_eq_ok htake
      exact ih (h.take hbody hfield htree htaken) hothers hrest htake

omit hbody in
/-- What a draft makes opens one bracket more than its fields. -/
private theorem OperationDraft.Within.finish {draft : OperationDraft} (h : draft.Within depth)
    {kind : OperationKind} {operation : Operation} (hfinish : draft.finish kind = .ok operation) :
    operation.Within (depth + 1) := by
  cases kind with
  | read =>
    obtain ⟨name, -, hmade⟩ := exists_of_bind_eq_ok hfinish
    exact Except.ok.inj hmade ▸ .read name
  | write =>
    obtain ⟨name, -, hmade⟩ := exists_of_bind_eq_ok hfinish
    obtain ⟨value, -, hmade⟩ := exists_of_bind_eq_ok hmade
    exact Except.ok.inj hmade ▸ .write name value
  | increment =>
    obtain ⟨name, -, hmade⟩ := exists_of_bind_eq_ok hfinish
    obtain ⟨modulus, -, hmade⟩ := exists_of_bind_eq_ok hmade
    exact Except.ok.inj hmade ▸ .increment name modulus
  | copy =>
    obtain ⟨source, -, hmade⟩ := exists_of_bind_eq_ok hfinish
    obtain ⟨target, -, hmade⟩ := exists_of_bind_eq_ok hmade
    exact Except.ok.inj hmade ▸ .copy source target
  | nested =>
    obtain ⟨body, hgiven, hmade⟩ := exists_of_bind_eq_ok hfinish
    obtain rfl := Except.ok.inj hmade
    unfold required at hgiven
    split at hgiven
    · rename_i hsome
      obtain rfl := Except.ok.inj hgiven
      exact h _ hsome
    · exact absurd hgiven (by simp)

/-- The trees in an operation as it is written. -/
def WrittenOperation.trees : WrittenOperation → List Tree
  | .named _ fields => fields.map Prod.snd
  | .listed _ fields => fields

/-- An operation opens one bracket more than the trees in it. -/
private theorem WrittenOperation.operation_within {written : WrittenOperation}
    (h : ∀ tree ∈ written.trees, Tree.Nests depth tree) {operation : Operation}
    (hmake : written.operation readBody = .ok operation) : operation.Within (depth + 1) := by
  have hempty : ({} : OperationDraft).Within depth := fun body hnone => absurd hnone (by simp)
  cases written with
  | named kind fields =>
    obtain ⟨draft, htake, hfinish⟩ := exists_of_bind_eq_ok hmake
    refine (hempty.takeNamed hbody (fun field hfield => ?_) htake).finish hfinish
    exact h field.2 (List.mem_map_of_mem hfield)
  | listed kind fields =>
    obtain ⟨draft, htake, hfinish⟩ := exists_of_bind_eq_ok hmake
    exact (hempty.takeListed hbody (fun _ => id) h htake).finish hfinish

end Reading

namespace WrittenOperation

/-- Taking the kind out of the fields leaves trees of the fields. -/
private theorem trees_of_ofFields {kind? : Option OperationKind}
    {others fields : List (String × Tree)} {written : WrittenOperation}
    (h : ofFields kind? others fields = .ok written) {holds : Tree → Prop}
    (hothers : ∀ field ∈ others, holds field.2) (hfields : ∀ field ∈ fields, holds field.2) :
    ∀ tree ∈ written.trees, holds tree := by
  induction fields generalizing kind? others with
  | nil =>
    cases kind? with
    | none => exact absurd h (by simp [ofFields])
    | some kind =>
      obtain rfl := Except.ok.inj h
      rintro tree htree
      obtain ⟨field, hfield, rfl⟩ := List.mem_map.mp htree
      exact hothers field (List.mem_reverse.mp hfield)
  | cons field fields ih =>
    obtain ⟨key, tree⟩ := field
    obtain ⟨htree, hrest⟩ := List.forall_mem_cons.mp hfields
    rw [ofFields.eq_def] at h
    simp only at h
    split at h
    · split at h
      · exact absurd h (by simp)
      · obtain ⟨kind, -, hlater⟩ := exists_of_bind_eq_ok h
        exact ih hlater hothers hrest
    · exact ih h (List.forall_mem_cons.mpr ⟨htree, hothers⟩) hrest

/-- The trees in an operation are nested less deep than the tree it is read from. -/
private theorem nests_of_ofTree {depth : Nat} {tree : Tree} (htree : Tree.Nests depth tree)
    {written : WrittenOperation} (h : ofTree tree = .ok written) :
    ∃ left, depth = left + 1 ∧ ∀ inside ∈ written.trees, Tree.Nests left inside := by
  cases htree with
  | object hfields =>
    exact ⟨_, rfl, trees_of_ofFields h (fun _ hmem => absurd hmem List.not_mem_nil) hfields⟩
  | @list left items hitems =>
    cases items with
    | nil => exact absurd h (by simp [ofTree])
    | cons kind items =>
      obtain ⟨_, -, hmade⟩ := exists_of_bind_eq_ok h
      obtain rfl := Except.ok.inj hmade
      exact ⟨_, rfl, (List.forall_mem_cons.mp hitems).2⟩
  | null | boolean | number | text => exact absurd h (by simp [ofTree])

end WrittenOperation

/-- Operations in trees are nested no deeper than the trees. -/
theorem Operation.within_of_ofTrees {most depth : Nat} {trees : List Tree}
    (htrees : ∀ tree ∈ trees, Tree.Nests depth tree) {operations : List Operation}
    (h : Operation.ofTrees most trees = .ok operations) :
    ∀ operation ∈ operations, operation.Within depth := by
  induction most generalizing depth trees operations with
  | zero => exact absurd h (by simp [Operation.ofTrees])
  | succ most ih =>
    rw [Operation.ofTrees] at h
    induction trees generalizing operations with
    | nil =>
      obtain rfl := Except.ok.inj h
      exact fun operation hmem => absurd hmem List.not_mem_nil
    | cons tree trees ihTrees =>
      obtain ⟨htree, hrest⟩ := List.forall_mem_cons.mp htrees
      rw [List.mapM_cons] at h
      obtain ⟨operation, hfirst, h⟩ := exists_of_bind_eq_ok h
      obtain ⟨others, hothers, hmade⟩ := exists_of_bind_eq_ok h
      obtain rfl := Except.ok.inj hmade
      obtain ⟨written, hwritten, hoperation⟩ := exists_of_bind_eq_ok hfirst
      obtain ⟨left, rfl, hinside⟩ := WrittenOperation.nests_of_ofTree htree hwritten
      refine List.forall_mem_cons.mpr ⟨?_, ihTrees hrest hothers⟩
      exact WrittenOperation.operation_within (fun _ _ _ hitems hread => ih hitems hread) hinside
        hoperation

namespace WrittenOperation

open Json.Reader

/-- The fields of an operation are trees that the reader of trees yields. -/
private theorem yields_readFields (most depth steps : Nat) (first : Bool)
    (kind? : Option OperationKind) {others : List (String × Tree)}
    (hothers : ∀ field ∈ others, Tree.Nests depth field.2) :
    (readFields most depth steps first kind? others).Yields
      fun written => ∀ tree ∈ written.trees, Tree.Nests depth tree := by
  induction steps generalizing first kind? others with
  | zero => exact yields_fail _
  | succ steps ih =>
    refine yields_bind fun key? => ?_
    cases key? with
    | none =>
      cases kind? with
      | none => exact yields_refuse _
      | some kind =>
        refine yields_pure fun tree htree => ?_
        obtain ⟨field, hfield, rfl⟩ := List.mem_map.mp htree
        exact hothers field (List.mem_reverse.mp hfield)
    | some key =>
      simp only
      split
      · split
        · exact yields_refuse _
        · exact yields_bind fun _ => yields_bind fun kind => ih false _ hothers
      · refine yields_bind fun _ => (Tree.yields_tree most depth).bind fun tree htree => ?_
        exact ih false _ (List.forall_mem_cons.mpr ⟨htree, hothers⟩)

/-- So are the items of an operation that is written as a list. -/
private theorem yields_readItems (most depth : Nat) :
    (readItems most depth).Yields
      fun written => ∀ tree ∈ written.trees, Tree.Nests depth tree := by
  refine yields_bind fun follows => ?_
  cases follows with
  | false => exact yields_refuse _
  | true =>
    refine yields_bind fun kind => ?_
    exact ((Tree.yields_tree most depth).elements most false (by simp)).bind fun items hitems =>
      yields_pure hitems

end WrittenOperation

/-- An operation that is read is nested no deeper than the reader goes. -/
theorem Operation.yields_reader (most depth : Nat) :
    (Operation.reader most depth).Yields (Operation.Within depth) := by
  have hread : (WrittenOperation.read most depth).Yields fun written =>
      ∃ left, depth = left + 1 ∧ ∀ tree ∈ written.trees, Tree.Nests left tree := by
    refine Reader.yields_byFirst fun c => ?_
    split
    · refine Reader.yields_entered fun left hleft => ?_
      exact (WrittenOperation.yields_readFields most left most true none (by simp)).mono
        fun written hwritten => ⟨left, hleft, hwritten⟩
    · split
      · refine Reader.yields_entered fun left hleft => ?_
        exact (WrittenOperation.yields_readItems most left).mono
          fun written hwritten => ⟨left, hleft, hwritten⟩
      · exact Reader.yields_mismatched _
  refine hread.bind fun written hwritten => Reader.yields_ofExcept fun operation hmake => ?_
  obtain ⟨left, rfl, hinside⟩ := hwritten
  exact WrittenOperation.operation_within
    (fun _ _ _ hitems hbody => Operation.within_of_ofTrees hitems hbody) hinside hmake

/-- The trees of operations are those of each. -/
theorem Operation.trees_eq_map (operations : List Operation) :
    Operation.trees operations = operations.map Operation.tree := by
  induction operations with
  | nil => rfl
  | cons operation operations ih => simp only [Operation.trees, List.map_cons, ih]

/-- Every 64-bit integer is read back. -/
private theorem readable_ofInt (depth : Nat) (value : Int64) :
    Tree.Readable depth (.ofInt value.toInt) := by
  have hleast := value.le_toInt
  have hmost := value.toInt_lt
  exact .whole (by omega) (by omega)

/-- An operation is written in a tree that is nested no deeper than allowed. -/
theorem Operation.Within.readable {depth : Nat} {operation : Operation}
    (h : operation.Within depth) : Tree.Readable depth operation.tree := by
  induction h with
  | read name =>
    refine .object ?_
    simp only [List.forall_mem_cons]
    exact ⟨.text _, .text _, List.forall_mem_nil _⟩
  | copy source target =>
    refine .object ?_
    simp only [List.forall_mem_cons]
    exact ⟨.text _, .text _, .text _, List.forall_mem_nil _⟩
  | write name value | increment name value =>
    refine .object ?_
    simp only [List.forall_mem_cons]
    exact ⟨.text _, .text _, readable_ofInt _ value, List.forall_mem_nil _⟩
  | nested hbody ih =>
    refine .object ?_
    simp only [List.forall_mem_cons]
    refine ⟨.text _, .list fun tree htree => ?_, List.forall_mem_nil _⟩
    rw [Operation.trees_eq_map] at htree
    obtain ⟨inside, hinside, rfl⟩ := List.mem_map.mp htree
    exact ih inside hinside

/-- What an operation is written in: its kind comes first, and the operation is made of the fields
after it when the operations inside are read back. -/
private theorem Operation.Within.exists_written {depth : Nat} {operation : Operation}
    (h : operation.Within (depth + 1)) : ∃ kind fields,
      operation.tree = .object ((WrittenOperation.kindField, .text (OperationKind.name kind)) ::
        fields) ∧
      (∀ field ∈ fields, field.1 ≠ WrittenOperation.kindField) ∧
      ∀ readBody : List Tree → Except ShapeFault (List Operation),
        (∀ left body, depth = left + 1 → (∀ inside ∈ body, inside.Within left) →
          readBody (Operation.trees body) = .ok body) →
        (WrittenOperation.named kind fields).operation readBody = .ok operation := by
  have hsigned (value : Int64) : (Tree.ofInt value.toInt).asSigned = .ok value :=
    Reader.asSigned_toInt value
  cases h with
  | read name =>
    exact ⟨.read, [("var", .text name)], rfl, by simp [WrittenOperation.kindField], fun _ _ => rfl⟩
  | write name value =>
    refine ⟨.write, [("var", .text name), ("value", .ofInt value.toInt)], rfl, ?_, fun _ _ => ?_⟩
    · simp [WrittenOperation.kindField]
    · simp [WrittenOperation.operation, OperationDraft.takeNamed, OperationDraft.fields,
        OperationDraft.fields.name, OperationDraft.fields.value, Json.Tree.asText, hsigned,
        OperationDraft.finish, required, bind, Except.bind, pure, Except.pure]
  | increment name modulus =>
    refine ⟨.increment, [("var", .text name), ("modulus", .ofInt modulus.toInt)], rfl, ?_,
      fun _ _ => ?_⟩
    · simp [WrittenOperation.kindField]
    · simp [WrittenOperation.operation, OperationDraft.takeNamed, OperationDraft.fields,
        OperationDraft.fields.name, OperationDraft.fields.modulus, Json.Tree.asText, hsigned,
        OperationDraft.finish, required, bind, Except.bind, pure, Except.pure]
  | copy source target =>
    exact ⟨.copy, [("from", .text source), ("to", .text target)], rfl,
      by simp [WrittenOperation.kindField], fun _ _ => rfl⟩
  | @nested left body hbody =>
    refine ⟨.nested, [("ops", .list (Operation.trees body))], rfl, ?_, fun _ hread => ?_⟩
    · simp [WrittenOperation.kindField]
    · have hinside := hread left body rfl hbody
      simp [WrittenOperation.operation, OperationDraft.takeNamed, OperationDraft.fields,
        OperationDraft.fields.body, Json.Tree.asList, hinside,
        OperationDraft.finish, required, bind, Except.bind, pure, Except.pure]

/-- The kind in a tree is that of its name. -/
private theorem OperationKind.ofName_name (kind : OperationKind) :
    OperationKind.ofName kind.name = .ok kind := by
  cases kind <;> decide

/-- The fields of an operation are taken as they stand once its kind was taken. -/
private theorem WrittenOperation.ofFields_of_kind {kind : OperationKind}
    {fields : List (String × Tree)} (hkind : ∀ field ∈ fields, field.1 ≠ kindField)
    (others : List (String × Tree)) :
    ofFields (some kind) others fields = .ok (.named kind (others.reverse ++ fields)) := by
  induction fields generalizing others with
  | nil => simp [ofFields]
  | cons field fields ih =>
    obtain ⟨hfield, hrest⟩ := List.forall_mem_cons.mp hkind
    obtain ⟨key, tree⟩ := field
    rw [ofFields.eq_def]
    simp only [hfield, if_false, ih hrest, List.reverse_cons, List.append_assoc]
    rfl

/-- The kind is taken from the first field. -/
private theorem WrittenOperation.ofTree_of_kind {kind : OperationKind}
    {fields : List (String × Tree)} (hkind : ∀ field ∈ fields, field.1 ≠ kindField) :
    ofTree (.object ((kindField, .text kind.name) :: fields)) = .ok (.named kind fields) := by
  have hrest : ofFields (some kind) [] fields = .ok (.named kind fields) :=
    ofFields_of_kind hkind []
  rw [ofTree, ofFields.eq_def]
  simp only [if_true, OperationKind.ofTree, kind.ofName_name, Option.isSome_none,
    Bool.false_eq_true, if_false]
  exact hrest

/-- Operations are read back from their trees. -/
theorem Operation.ofTrees_trees {depth most : Nat} (hmost : depth < most)
    {operations : List Operation} (h : ∀ operation ∈ operations, operation.Within depth) :
    Operation.ofTrees most (Operation.trees operations) = .ok operations := by
  induction most generalizing depth operations with
  | zero => exact absurd hmost (Nat.not_lt_zero _)
  | succ most ih =>
    rw [Operation.ofTrees]
    induction operations with
    | nil => rfl
    | cons operation operations ihOperations =>
      obtain ⟨hfirst, hrest⟩ := List.forall_mem_cons.mp h
      have hread : (WrittenOperation.ofTree operation.tree >>=
          fun written => written.operation (Operation.ofTrees most)) = .ok operation := by
        obtain ⟨left, rfl⟩ : ∃ left, depth = left + 1 := by
          cases hfirst <;> exact ⟨_, rfl⟩
        obtain ⟨kind, fields, htree, hkind, hmade⟩ := hfirst.exists_written
        rw [htree, WrittenOperation.ofTree_of_kind hkind]
        exact hmade _ fun inner body hinner hbody => ih (by omega) hbody
      rw [Operation.trees, List.mapM_cons, hread, ihOperations hrest]
      rfl

section Writing

open Json.Reader

variable {spacing : Spacing} {most : Nat}

/-- A kind is read back from its name. -/
private theorem OperationKind.takes_readKind (kind : OperationKind) :
    WrittenOperation.readFields.readKind.Takes (textChars kind.name) kind :=
  ((takes_text _ _).bind fun rest => reads_ofExcept kind.ofName_name rest).placed

/-- The fields of an operation are read back once its kind was. -/
private theorem WrittenOperation.reads_readFields (hspacing : spacing.Blank) {level depth : Nat}
    (kind : OperationKind) {fields : List (String × Tree)}
    (hkind : ∀ field ∈ fields, field.1 ≠ kindField)
    (htakes : ∀ field ∈ fields, (tree most depth).Takes (field.2.chars spacing level) field.2)
    {lineStart blanks : List Char} (hline : AllBlank lineStart) (hblanks : AllBlank blanks)
    {steps : Nat} (hsteps : fields.length < steps) (others : List (String × Tree))
    (rest : List Char) :
    (readFields most depth steps false (some kind) others).Reads
      (separated lineStart false
          (fields.map fun field => memberChars spacing field.1 (field.2.chars spacing level)) ++
        blanks ++ '\x7d' :: rest)
      (.named kind (others.reverse ++ fields)) ('\x7d' :: rest) := by
  induction fields generalizing steps others with
  | nil =>
    obtain ⟨steps, rfl⟩ := Nat.exists_eq_succ_of_ne_zero (Nat.ne_of_gt hsteps)
    rw [List.append_nil]
    exact (reads_nextKey_end hblanks false).bind (reads_pure _ _)
  | cons field fields ih =>
    obtain ⟨steps, rfl⟩ := Nat.exists_eq_succ_of_ne_zero (Nat.ne_of_gt (Nat.zero_lt_of_lt hsteps))
    obtain ⟨key, value⟩ := field
    obtain ⟨hkey, hkeys⟩ := List.forall_mem_cons.mp hkind
    obtain ⟨hvalue, hvalues⟩ := List.forall_mem_cons.mp htakes
    have hrest := ih hkeys hvalues (Nat.lt_of_succ_lt_succ hsteps) ((key, value) :: others)
    rw [show others.reverse ++ (key, value) :: fields =
      ((key, value) :: others).reverse ++ fields by simp]
    refine (reads_nextKey spacing hline false key _ _ rest).bind ?_
    simp only [hkey, if_false]
    exact hvalue.reads_member hspacing hblanks hrest

/-- An operation is read back from its text. -/
theorem Operation.Within.takes (hspacing : spacing.Blank) {depth : Nat} {operation : Operation}
    (h : operation.Within depth) (hdepth : depth ≤ deepest) {level : Nat}
    (hmost : (operation.tree.chars spacing level).length ≤ most) :
    (Operation.reader most depth).Takes (operation.tree.chars spacing level) operation := by
  have hreadable := h.readable
  obtain ⟨depth, rfl⟩ : ∃ left, depth = left + 1 := by
    cases h <;> exact ⟨_, rfl⟩
  obtain ⟨kind, fields, htree, hkind, hmade⟩ := h.exists_written
  obtain ⟨blanks, hblanks, hchars⟩ := Tree.chars_object hspacing level
    ((WrittenOperation.kindField, .text kind.name) :: fields)
  rw [htree] at hreadable hmost ⊢
  have hfields : ∀ field ∈ fields, Tree.Readable depth field.2 := by
    cases hreadable with
    | object hfields => exact (List.forall_mem_cons.mp hfields).2
  have hlength := Tree.length_field_le hspacing hmost
  rw [hchars] at hmost ⊢
  obtain ⟨hcount, -⟩ := length_bracketed hmost
  rw [List.length_map, List.length_cons] at hcount
  obtain ⟨steps, rfl⟩ := Nat.exists_eq_succ_of_ne_zero (Nat.ne_of_gt (Nat.zero_lt_of_lt hcount))
  have htakes (field : String × Tree) (hfield : field ∈ fields) :
      (Reader.tree (steps + 1) depth).Takes (field.2.chars spacing (level + 1)) field.2 :=
    (hfields field hfield).takes hspacing (hlength field (List.mem_cons_of_mem _ hfield))
  have hread : (WrittenOperation.read (steps + 1) (depth + 1)).Takes
      ('\x7b' :: (separated (spacing.lineStart (level + 1)) true
        (((WrittenOperation.kindField, Tree.text kind.name) :: fields).map fun field =>
          memberChars spacing field.1 (field.2.chars spacing (level + 1))) ++
        blanks ++ ['\x7d'])) (.named kind fields) := by
    refine takes_bracketed closes_object rfl rfl (by decide) fun rest => ?_
    have hfields := WrittenOperation.reads_readFields hspacing kind hkind htakes
      (hspacing.lineStart (level + 1)) hblanks (Nat.lt_of_succ_lt_succ hcount) [] rest
    refine (reads_nextKey spacing (hspacing.lineStart (level + 1)) true
      WrittenOperation.kindField _ _ rest).bind ?_
    simp only [if_true, Option.isSome_none, Bool.false_eq_true, if_false]
    exact kind.takes_readKind.reads_member hspacing hblanks hfields
  refine hread.bind fun rest => reads_ofExcept ?_ rest
  exact hmade _ fun left body hleft hbody => Operation.ofTrees_trees (by omega) hbody

end Writing

end EventOrder
