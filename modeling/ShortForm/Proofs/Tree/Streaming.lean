import ShortForm.Proofs.Json.Expect
import ShortForm.Proofs.Json.Pass
import ShortForm.Proofs.Tree.OfJson
import ShortForm.Proofs.Tree.PassedOver

/-!
# Nodes recognised while they are read

A node that is asked for is recognised while its text is read, and a value only after its text has
been read whole as JSON. The two agree (`ofText_streaming`): what is read whole and then found to be
a node is recognised on the way as the same node, and what is then found to be something else is
refused on the way for its shape.

The way back is not complete. Members of the outermost node that are no fields are passed over,
which is looser than reading them, so a node may be recognised in a text that cannot be read whole;
the fault of reading is then one of form. `Node.passedOver` finds these members in a text, and if
each of them can be read there is no such fault.
-/

namespace ShortForm

open Reader Json Accord

/-! ## Parts of a node -/

namespace Accord

variable {α β γ : Type} {n : Nat}

/-- The first recognises what the second keeps; what is not recognised is of the wrong shape. -/
def recognising (decode : β → Option α) : Accord α β where
  same a b := decode b = some a
  lost b fault := decode b = none ∧ fault.kind = .shape
  loose _ _ := False

/-- What is recognised may be changed. -/
theorem Upto.recognising_map {decode : β → Option α} {p : Reader α} {q : Reader β}
    (h : (recognising decode).Upto n p q) (f : α → γ) :
    (recognising fun b => (decode b).map f).Upto n (p >>= fun a => Pure.pure (f a)) q := by
  intro s bound
  have here := h s bound
  rw [run_bind]
  cases left : p.run s with
  | error fault =>
    cases right : q.run s with
    | error _ => exact True.intro
    | ok taken =>
      rw [left, right] at here
      exact ⟨Option.map_eq_none_iff.mpr here.1, here.2⟩
  | ok taken =>
    cases right : q.run s with
    | error _ =>
      rw [left, right] at here
      exact here.elim
    | ok taken' =>
      rw [left, right] at here
      exact ⟨Option.map_eq_some_iff.mpr ⟨_, here.1, rfl⟩, here.2⟩

end Accord

/-- The text that a JSON value is. -/
def Json.string? : Json → Option String
  | .string s => some s
  | _ => none

section

variable {n room : Nat}

theorem readString_upto :
    (recognising Json.string?).Upto n readString (Json.read (room + 1)) := by
  rw [readString_eq]
  exact Upto.expecting ⟨rfl, rfl⟩ (fun _ => ⟨rfl, rfl⟩) (Upto.wrongNumber fun _ => ⟨rfl, rfl⟩)
    (Upto.made fun _ => rfl)
    (@Upto.wrongList _ (recognising Json.string?) _ _ (fun _ => ⟨rfl, rfl⟩) _)
    (@Upto.wrongObject _ (recognising Json.string?) _ _ (fun _ => ⟨rfl, rfl⟩) _)

theorem Kind.read_upto : (recognising Json.kind?).Upto n Kind.read (Json.read (room + 1)) := by
  have kind : Json.kind? = fun j => j.string?.map Kind.ofTag := by
    funext j
    cases j <;> rfl
  rw [kind]
  exact readString_upto.recognising_map Kind.ofTag

theorem readWord_upto :
    (recognising Json.word?).Upto n readWord (Json.read (room + 1)) := by
  rw [readWord_eq]
  refine Upto.expecting ⟨rfl, rfl⟩ (fun _ => ⟨rfl, rfl⟩) (Upto.after Number.read fun m => ?_)
    (Upto.wrongString fun _ => ⟨rfl, rfl⟩)
    (@Upto.wrongList _ (recognising Json.word?) _ _ (fun _ => ⟨rfl, rfl⟩) _)
    (@Upto.wrongObject _ (recognising Json.word?) _ _ (fun _ => ⟨rfl, rfl⟩) _)
  cases word : m.word? with
  | some w => exact Upto.pure word
  | none =>
    cases m with
    | int i => exact Upto.fail_left (Gives.pure ⟨word, rfl⟩)
    | float x => exact Upto.fail_left (Gives.pure ⟨word, rfl⟩)

theorem Flags.read_upto :
    (recognising fun j => j.word?.map Flags.mk).Upto n Flags.read (Json.read (room + 1)) :=
  readWord_upto.recognising_map Flags.mk

/-- Going on with one more step, where the steps taken are kept last first. -/
theorem foldlM_reverse_cons {σ μ : Type} (step : σ → μ → Option σ) (start : σ) (m : μ)
    (before : List μ) :
    (m :: before).reverse.foldlM step start =
      (before.reverse.foldlM step start).bind fun state => step state m := by
  rw [List.reverse_cons, List.foldlM_append]
  refine congrArg (Option.bind _) (funext fun state => ?_)
  rw [List.foldlM_cons]
  exact bind_pure _

/-- The children that the members of an object are, when they are kept last first. -/
def childrenSoFar (members : List (String × Json)) : Option (Named Value) :=
  members.reverse.foldlM putMember? []

theorem childrenSoFar_cons (m : String × Json) (members : List (String × Json)) :
    childrenSoFar (m :: members) =
      (childrenSoFar members).bind fun children => putMember? children m :=
  foldlM_reverse_cons putMember? [] m members

/-- Once the members are no children of a node they stay so. -/
theorem member_gives_childrenSoFar {value : Reader Json} {members : List (String × Json)}
    (stuck : childrenSoFar members = none) (name : String) :
    (member value members name).Gives fun members' => childrenSoFar members' = none :=
  (Gives.trivial colon).bind fun _ _ => (Gives.trivial value).bind fun j _ => Gives.pure <| by
    rw [childrenSoFar_cons, stuck, Option.bind_none]

theorem Node.readChildren_eq :
    readChildren = expecting .object (wrongNumber .object) (wrongString .object)
      (fail (.wrongType .list .object))
      (do
        next
        objectRest (refuseClosing '\x7d') stringRest readChild []) := by
  apply ext
  intro s
  rw [readChildren, run_blanks_peek, expecting, valueBy_blanks]
  have solid := dropWhile_isBlank_twice s
  generalize s.dropWhile isBlank = t at solid ⊢
  cases t with
  | nil => rfl
  | cons c t =>
    by_cases bracket : c = '\x7b'
    · subst bracket
      rw [valueBy_object]
      rfl
    · simp only [wrongType, valueBy, wrongNumber, wrongString, run_bind, run_blanks, run_peek,
        solid, List.head?_cons, Option.some.injEq, bracket, if_false]

theorem Node.readChildren_upto :
    (recognising childrenOf?).Upto n Node.readChildren
      (Json.read (Node.childRoom + 1)) := by
  have child : ∀ children members name, childrenSoFar members = some children →
      (recognising childrenSoFar).Upto n (Node.readChild children name)
        (member (Json.read Node.childRoom) members name) := by
    intro children members name same
    apply Upto.after colon
    intro _
    rw [Value.readWithin, bind_bind]
    apply Upto.after (Json.read Node.childRoom)
    intro j
    have next : childrenSoFar ((name, j) :: members) =
        (Value.ofJson? j).map (Named.put children name) := by
      rw [childrenSoFar_cons, same]
      rfl
    cases shape : Value.ofJson? j with
    | some v =>
      rw [shape] at next
      exact Upto.pure next
    | none =>
      rw [shape] at next
      exact Upto.fail_left (Gives.pure ⟨next, rfl⟩)
  have members : (recognising childrenSoFar).Upto n
      (objectRest (refuseClosing '\x7d') stringRest Node.readChild [])
      (objectRest (refuseClosing '\x7d') stringRest (member (Json.read Node.childRoom)) []) :=
    Upto.objectRest (fun _ _ same => Upto.after _ fun name => child _ _ name same)
      (fun _ _ same => Upto.after _ fun _ => Upto.after _ fun name => child _ _ name same)
      (fun members name fault stays _ _ _ run =>
        ⟨member_gives_childrenSoFar stays.1 name run, stays.2⟩)
      (fun _ _ _ never => never.elim) rfl
  rw [readChildren_eq]
  refine Upto.expecting ⟨rfl, rfl⟩ (fun _ => ⟨rfl, rfl⟩) (Upto.wrongNumber fun _ => ⟨rfl, rfl⟩)
    (Upto.wrongString fun _ => ⟨rfl, rfl⟩)
    (@Upto.wrongList _ (recognising childrenOf?) _ _ (fun _ => ⟨rfl, rfl⟩) _)
    (Upto.after next fun _ => ?_)
  have decoded : ∀ members : List (String × Json),
      childrenOf? (.object members.reverse) = childrenSoFar members := fun members =>
    childrenOfMembers?_eq_foldlM [] members.reverse
  exact members.bind_pure (fun _ ms same => (decoded ms).trans same)
    (fun ms _ stays => ⟨(decoded ms).trans stays.1, stays.2⟩) fun _ _ never => never

end

/-! ## Nodes written as objects -/

/-- The fields that the members of an object are, when they are kept last first. -/
def fieldsSoFar (members : List (String × Json)) : Option Fields :=
  members.reverse.foldlM Fields.addMember? {}

theorem fieldsSoFar_cons (m : String × Json) (members : List (String × Json)) :
    fieldsSoFar (m :: members) =
      (fieldsSoFar members).bind fun fields => fields.addMember? m :=
  foldlM_reverse_cons Fields.addMember? {} m members

namespace Accord

/-- The fields of a node are recognised among the members that are kept. A fault of form is put down
to a member that was passed over and could not be read. -/
def fields : Accord (Fields × List (List Char)) (List (String × Json)) where
  same state members := fieldsSoFar members = some state.1
  lost members fault := fieldsSoFar members = none ∧ fault.kind = .shape
  loose state fault := fault.kind = .form ∧ ∃ text ∈ state.2, ¬ Node.ValueReads text

end Accord

namespace Node

variable {n : Nat}

theorem readField_upto (fields : Fields) (field : Field) :
    (recognising (fields.add? field)).Upto n (readField fields field)
      (Json.read (maxDepth - 1)) := by
  cases field with
  | kind => exact Kind.read_upto.recognising_map fun kind => { fields with kind := some kind }
  | flags => exact readWord_upto.recognising_map fun flags => { fields with flags := some flags }
  | line => exact readWord_upto.recognising_map fun line => { fields with line := some line }
  | children =>
    exact readChildren_upto.recognising_map fun children =>
      { fields with children := some children }

theorem member_gives_fieldsSoFar {value : Reader Json} {members : List (String × Json)}
    {name : String} (stuck : ∀ j, fieldsSoFar ((name, j) :: members) = none) :
    (member value members name).Gives fun members' => fieldsSoFar members' = none :=
  (Gives.trivial colon).bind fun _ _ => (Gives.trivial value).bind fun j _ => Gives.pure (stuck j)

/-- What is noted stays noted. -/
theorem noteMember_gives {P : List (List Char) → Prop} {state : Fields × List (List Char)}
    (kept : ∀ text, P (text :: state.2)) (h : P state.2) (name : String) :
    (noteMember state name).Gives fun state' => P state'.2 := by
  refine (Gives.trivial here).bind fun text _ => (Gives.trivial _).bind fun fields _ =>
    Gives.pure ?_
  simp only
  split
  · exact h
  · exact kept text

/-- A member that is no field may be passed over where it cannot be read, and then it is noted. -/
theorem noteMember_upto_of_none {state : Fields × List (List Char)} {members : List (String × Json)}
    {name : String} (same : fieldsSoFar members = some state.1)
    (unknown : Field.ofName? name = none) :
    Accord.fields.Upto n (noteMember state name)
      (member (Json.read (maxDepth - 1)) members name) := by
  intro s bound
  have looser : (looser Unit Json).Upto n (do colon; pass)
      (do colon; Json.read (maxDepth - 1)) := Upto.after colon fun _ => pass_upto_read _
  have left : (noteMember state name).run s =
      ((do colon; pass : Reader Unit).run s).map fun taken =>
        ((state.1, s :: state.2), taken.2) := by
    simp only [noteMember, readMember, unknown, run_bind, run_here]
    cases colon.run s with
    | error fault => rfl
    | ok taken =>
      simp only
      cases pass.run taken.2 <;> rfl
  have right : (member (Json.read (maxDepth - 1)) members name).run s =
      ((do colon; Json.read (maxDepth - 1) : Reader Json).run s).map fun taken =>
        ((name, taken.1) :: members, taken.2) := by
    simp only [member, run_bind]
    cases colon.run s with
    | error fault => rfl
    | ok taken =>
      simp only
      cases (Json.read (maxDepth - 1)).run taken.2 <;> rfl
  have here := looser s bound
  rw [left, right]
  cases passed : (do colon; pass : Reader Unit).run s with
  | error fault =>
    cases read : (do colon; Json.read (maxDepth - 1) : Reader Json).run s with
    | error _ => exact True.intro
    | ok taken =>
      rw [passed, read] at here
      exact here.elim
  | ok taken =>
    cases read : (do colon; Json.read (maxDepth - 1) : Reader Json).run s with
    | error fault =>
      rw [passed, read] at here
      refine ⟨here, s, List.mem_cons_self, ?_⟩
      rintro ⟨taken', reads⟩
      rw [read] at reads
      cases reads
    | ok taken' =>
      rw [passed, read] at here
      refine ⟨?_, here.2⟩
      change fieldsSoFar ((name, taken'.1) :: members) = some state.1
      rw [fieldsSoFar_cons, same, Option.bind_some, Fields.addMember?, unknown]

theorem noteMember_upto {state : Fields × List (List Char)} {members : List (String × Json)}
    (same : fieldsSoFar members = some state.1) (name : String) :
    Accord.fields.Upto n (noteMember state name)
      (member (Json.read (maxDepth - 1)) members name) := by
  cases known : Field.ofName? name with
  | none => exact noteMember_upto_of_none same known
  | some field =>
    have noted : noteMember state name =
        readMember state.1 name >>= fun fields => pure (fields, state.2) := by
      unfold noteMember
      simp only [known, Option.isSome_some, if_true]
      rfl
    have next : ∀ j, fieldsSoFar ((name, j) :: members) =
        if state.1.has field then none else state.1.add? field j := by
      intro j
      rw [fieldsSoFar_cons, same, Option.bind_some, Fields.addMember?, known]
    rw [noted]
    unfold readMember
    simp only [known]
    by_cases twice : state.1.has field
    · -- The second field of a name is a fault before its value is looked at.
      simp only [if_pos twice] at next ⊢
      refine @Upto.fail_left _ _ Accord.fields _ (.duplicateField field.name) _ ?_
      intro s members' rest run
      exact ⟨member_gives_fieldsSoFar next run, rfl⟩
    · simp only [if_neg twice] at next ⊢
      rw [bind_bind]
      refine Upto.after colon fun _ => (readField_upto state.1 field).bind ?_ ?_ ?_
      · intro fields j decoded
        exact Upto.pure ((next j).trans decoded)
      · intro j fault stays
        exact Gives.pure ⟨(next j).trans stays.1, stays.2⟩
      · intro _ _ never
        exact never.elim

end Node

namespace Accord

/-- A node is recognised in the value that is kept. What is not recognised is of the wrong shape, if
the value is that of a list or a scalar; and a fault of form is put down to a member that was passed
over and could not be read. -/
def node : Accord (Node × List (List Char)) Json where
  same read j := Node.ofJson? j = some read.1
  lost j fault := Node.ofJson? j = none ∧ ((Value.ofJson? j).isSome → fault.kind = .shape)
  loose read fault := fault.kind = .form ∧ ∃ text ∈ read.2, ¬ Node.ValueReads text

end Accord

namespace Node

variable {n : Nat}

theorem ofJson?_object (members : List (String × Json)) :
    Node.ofJson? (.object members.reverse) = (fieldsSoFar members).bind Fields.node? := by
  rw [Node.ofJson?, fieldsOf?_eq_foldlM]
  rfl

theorem noteMembers_upto :
    Accord.node.Upto n noteMembers (membersRest (Json.read (maxDepth - 1))) := by
  have objects : Accord.fields.Upto n
      (objectRest (refuseClosing '\x7d') stringRest noteMember ({}, []))
      (objectRest (refuseClosing '\x7d') stringRest (member (Json.read (maxDepth - 1))) []) := by
    refine Upto.objectRest (fun _ _ same => Upto.after _ fun name => noteMember_upto same name)
      (fun _ _ same => Upto.after _ fun _ => Upto.after _ fun name => noteMember_upto same name)
      ?_ ?_ rfl
    · intro members name fault stays s members' rest run
      refine ⟨member_gives_fieldsSoFar (fun j => ?_) run, stays.2⟩
      rw [fieldsSoFar_cons, stays.1, Option.bind_none]
    · intro state name fault stays s state' rest run
      obtain ⟨form, text, mem, unread⟩ := stays
      refine ⟨form, text, ?_, unread⟩
      exact noteMember_gives (P := (text ∈ ·)) (fun _ => List.mem_cons_of_mem _ mem) mem name run
  apply objects.bind
  · intro state members same
    obtain ⟨fields, noted⟩ := state
    have whole := ofJson?_object members
    rw [same, Option.bind_some] at whole
    simp only at whole ⊢
    cases node : fields.node? with
    | some read =>
      rw [node] at whole
      exact Upto.pure whole
    | none =>
      rw [node] at whole
      exact Upto.fail_left (Gives.pure ⟨whole, fun _ => rfl⟩)
  · intro members fault stays
    have whole := ofJson?_object members
    rw [stays.1, Option.bind_none] at whole
    exact Gives.pure ⟨whole, fun _ => stays.2⟩
  · intro state fault stays
    obtain ⟨fields, noted⟩ := state
    simp only
    cases fields.node? with
    | some read => exact Gives.pure stays
    | none => exact Gives.fail _

end Node

/-! ## Nodes written as arrays -/

namespace Accord

/-- A node is recognised among the items that are kept. -/
def items : Accord Node (List Json) where
  same read before := nodeOfItems? before.reverse = some read
  lost before fault := nodeOfItems? before.reverse = none ∧
    ((slotsOf? before.reverse).isSome → fault.kind = .shape)
  loose _ _ := False

end Accord

namespace Node

variable {n : Nat} {α : Type}

theorem nextItem_close (item : Reader α) (absent : α) (rest : List Char) :
    (nextItem item absent).run (']' :: rest) = .ok (absent, ']' :: rest) := by
  rw [nextItem, run_bind, hasNextItem_run_eq]
  rfl

/-- More items are put in front of those before them. -/
theorem moreItems_gives (value : Reader Json) (before : List Json) :
    (moreItems (refuseClosing ']') (item value) before).Gives fun all =>
      ∃ more, all = more ++ before :=
  gives_moreItems
    (fun _ ⟨more, eq⟩ => (Gives.trivial value).bind fun j _ => Gives.pure ⟨j :: more, by simp [eq]⟩)
    ⟨[], rfl⟩

/-- One more item of a node, if there is one. It is enough to know what is recognised with the item,
what without, and that without it being recognised nothing is. -/
theorem nextItem_upto {decode : Json → Option α} {item₁ : Reader α} {absent : α}
    {more : α → Reader Node} {value : Reader Json} {before : List Json}
    (reads : (recognising decode).Upto n item₁ value)
    (present : ∀ a j, decode j = some a →
      Accord.items.Upto n (more a) (moreItems (refuseClosing ']') (item value) (j :: before)))
    (ends : ∃ read, nodeOfItems? before.reverse = some read ∧
      ∀ rest, (more absent).run (']' :: rest) = .ok (read, rest))
    (refused : ∀ j later, decode j = none → nodeOfItems? (before.reverse ++ j :: later) = none) :
    Accord.items.Upto n (nextItem item₁ absent >>= more)
      (moreItems (refuseClosing ']') (item value) before) := by
  intro s bound
  rw [moreItems_eq_hasNextItem, nextItem, bind_bind, run_bind, run_bind]
  cases next : hasNextItem.run s with
  | error fault => exact True.intro
  | ok taken =>
    obtain ⟨goesOn, rest⟩ := taken
    have shorter := hasNextItem.length_le next
    cases goesOn with
    | true =>
      simp only [if_true, item, bind_bind]
      refine reads.bind (fun a j decoded => present a j decoded) ?_ (fun _ _ never => never.elim)
        rest (by omega)
      intro j fault stays s all rest run
      obtain ⟨later, rfl⟩ := moreItems_gives value (j :: before) run
      refine ⟨?_, fun _ => stays.2⟩
      rw [List.reverse_append, List.reverse_cons, List.append_assoc]
      exact refused j later.reverse stays.1
    | false =>
      obtain ⟨rest', rfl⟩ : ∃ rest', rest = ']' :: rest' := by
        rw [hasNextItem_run_eq] at next
        split at next
        · cases next
        · split at next
          · simp only [Except.ok.injEq, Prod.mk.injEq] at next
            exact ⟨_, next.2.symm⟩
          · split at next
            · obtain ⟨_, _, _, last⟩ := run_bind_eq_ok.mp next
              cases last
            · cases next
      obtain ⟨read, same, run⟩ := ends
      have stops := run rest'
      simp only [Bool.false_eq_true, if_false, run_bind, run_pure, stops]
      exact ⟨same, rfl⟩

/-- Behind the last item that a node can have stands the closing bracket. One more item makes the
array something else than a node, and no list either, because its first item is a string. -/
theorem listEnd_upto {value : Reader Json} {read : Node} {tag : String} {a b c : Json}
    (same : nodeOfItems? [.string tag, a, b, c] = some read) :
    Accord.items.Upto n (listEnd >>= fun _ => pure read)
      (moreItems (refuseClosing ']') (item value) [c, b, a, .string tag]) := by
  have fifth : (item value [c, b, a, .string tag] >>=
      moreItems (refuseClosing ']') (item value)).Gives fun all =>
        ∀ fault, Accord.items.lost all fault := by
    refine (Gives.trivial value).bind (Q := fun items => ∃ j, items = [j, c, b, a, .string tag])
      (fun j _ => Gives.pure ⟨j, rfl⟩) |>.bind ?_
    rintro _ ⟨j, rfl⟩ s all rest run fault
    obtain ⟨more, rfl⟩ := moreItems_gives value _ run
    have items : (more ++ [j, c, b, a, .string tag]).reverse =
        .string tag :: a :: b :: c :: j :: more.reverse := by simp
    refine ⟨by rw [items]; rfl, ?_⟩
    rw [items, slotsOf?_string]
    intro never
    cases never
  intro s bound
  rw [moreItems_eq_hasNextItem, run_bind, run_bind, hasNextItem_run_eq, listEnd, run_blanks_peek]
  cases s.dropWhile isBlank with
  | nil => exact True.intro
  | cons d t =>
    by_cases close : d = ']'
    · subst close
      exact ⟨same, rfl⟩
    by_cases comma : d = ','
    · subst comma
      obtain ⟨extra, refused⟩ : ∃ fault,
          (if (t.dropWhile isBlank).head? = some ']' then fail .trailingComma
            else fail .trailingText : Reader Unit).run (t.dropWhile isBlank) = .error fault := by
        split <;> exact ⟨_, rfl⟩
      simp only [List.head?_cons, if_neg close, if_true, run_bind, run_next, List.tail_cons,
        run_blanks, run_peek, refused]
      cases (refuseClosing ']').run t with
      | error fault => exact True.intro
      | ok taken =>
        simp only [run_pure, if_true]
        cases all : (item value [c, b, a, .string tag] >>=
            moreItems (refuseClosing ']') (item value)).run taken.2 with
        | error fault => exact True.intro
        | ok taken' => exact fifth all extra
    · simp only [List.head?_cons, if_neg close, if_neg comma]
      exact True.intro

end Node

namespace Node

variable {n : Nat}

/-- What is no kind in front, no flags in the second place, no line in the third or no children in
the fourth makes an array something else than a node. -/
theorem nodeOfItems?_eq_none {kind flags line children : Json} (later : List Json) :
    (kind.kind? = none → nodeOfItems? (kind :: later) = none) ∧
      (flags.word? = none → nodeOfItems? (kind :: flags :: later) = none) ∧
      (line.word? = none → nodeOfItems? (kind :: flags :: line :: later) = none) ∧
      (childrenOf? children = none →
        nodeOfItems? (kind :: flags :: line :: children :: later) = none) := by
  refine ⟨fun none => ?_, fun none => ?_, fun none => ?_, fun none => ?_⟩
  · rcases later with _ | ⟨a, _ | ⟨b, _ | ⟨c, _ | ⟨d, later⟩⟩⟩⟩ <;> simp [nodeOfItems?, none]
  · rcases later with _ | ⟨b, _ | ⟨c, _ | ⟨d, later⟩⟩⟩ <;> simp [nodeOfItems?, none]
  · rcases later with _ | ⟨c, _ | ⟨d, later⟩⟩ <;> simp [nodeOfItems?, none]
  · rcases later with _ | ⟨d, later⟩ <;> simp [nodeOfItems?, none]

theorem childrenItem_upto {tag : String} {flags line : Json} {bits number : UInt32}
    (isFlags : flags.word? = some bits) (isLine : line.word? = some number) :
    Accord.items.Upto n
      (nextItem readChildren [] >>= fun children => listEnd >>= fun _ =>
        pure ⟨.ofTag tag, ⟨bits⟩, number, children⟩)
      (moreItems (refuseClosing ']') (item (Json.read (maxDepth - 1)))
        [line, flags, .string tag]) := by
  have kind : (Json.string tag).kind? = some (.ofTag tag) := rfl
  refine nextItem_upto readChildren_upto (fun children j decoded => ?_) ⟨_, ?_, fun rest => rfl⟩ ?_
  · apply listEnd_upto
    simp [nodeOfItems?, kind, isFlags, isLine, decoded]
  · simp [nodeOfItems?, kind, isFlags, isLine]
  · intro j later stuck
    exact (nodeOfItems?_eq_none later).2.2.2 stuck

theorem lineItem_upto {tag : String} {flags : Json} {bits : UInt32}
    (isFlags : flags.word? = some bits) :
    Accord.items.Upto n
      (nextItem readWord 0 >>= fun line => nextItem readChildren [] >>= fun children =>
        listEnd >>= fun _ => pure ⟨.ofTag tag, ⟨bits⟩, line, children⟩)
      (moreItems (refuseClosing ']') (item (Json.read (maxDepth - 1))) [flags, .string tag]) := by
  have kind : (Json.string tag).kind? = some (.ofTag tag) := rfl
  refine nextItem_upto readWord_upto (fun line j decoded => childrenItem_upto isFlags decoded)
    ⟨⟨.ofTag tag, ⟨bits⟩, 0, []⟩, ?_, fun rest => ?_⟩ ?_
  · simp [nodeOfItems?, kind, isFlags]
  · rw [run_bind, nextItem_close]
    rfl
  · intro j later stuck
    exact (@nodeOfItems?_eq_none _ _ _ j later).2.2.1 stuck

theorem flagsItem_upto {tag : String} :
    Accord.items.Upto n
      (nextItem Flags.read .zero >>= fun flags => nextItem readWord 0 >>= fun line =>
        nextItem readChildren [] >>= fun children => listEnd >>= fun _ =>
        pure ⟨.ofTag tag, flags, line, children⟩)
      (moreItems (refuseClosing ']') (item (Json.read (maxDepth - 1))) [.string tag]) := by
  have kind : (Json.string tag).kind? = some (.ofTag tag) := rfl
  refine nextItem_upto Flags.read_upto (fun flags j decoded => ?_)
    ⟨⟨.ofTag tag, .zero, 0, []⟩, ?_, fun rest => ?_⟩ ?_
  · obtain ⟨bits, isFlags, rfl⟩ := Option.map_eq_some_iff.mp decoded
    exact lineItem_upto isFlags
  · simp [nodeOfItems?, kind]
  · rw [run_bind, nextItem_close]
    simp only
    rw [run_bind, nextItem_close]
    rfl
  · intro j later stuck
    exact (@nodeOfItems?_eq_none _ j j j later).2.1 (Option.map_eq_none_iff.mp stuck)

theorem readItems_upto :
    Accord.items.Upto n readItems
      (listRest (refuseClosing ']') (item (Json.read (maxDepth - 1))) []) := by
  rw [listRest_eq_hasItem]
  unfold readItems
  apply Upto.after hasItem
  intro isThere
  cases isThere with
  | false =>
    exact Upto.fail_left ((Gives.trivial next).bind fun _ _ => Gives.pure ⟨rfl, fun _ => rfl⟩)
  | true =>
    simp only [if_true, item, bind_bind]
    refine Kind.read_upto.bind (fun kind first isKind => ?_) ?_ (fun _ _ never => never.elim)
    · obtain ⟨tag, rfl⟩ : ∃ tag, first = .string tag := by
        cases first <;> first | exact ⟨_, rfl⟩ | cases isKind
      obtain rfl : Kind.ofTag tag = kind := Option.some.inj isKind
      exact flagsItem_upto
    · intro first fault stays s all rest run
      obtain ⟨later, rfl⟩ := moreItems_gives _ [first] run
      refine ⟨?_, fun _ => stays.2⟩
      rw [List.reverse_append]
      exact (@nodeOfItems?_eq_none first first first first later.reverse).1 stays.1

end Node

/-! ## Whole nodes -/

namespace Node

variable {n : Nat}

theorem noteRead_eq :
    noteRead = expecting .node (wrongNumber .node) (wrongString .node)
      (do
        next
        let n ← readItems
        pure (n, []))
      (do
        next
        noteMembers) := by
  apply ext
  intro s
  rw [noteRead, run_blanks_peek, expecting, valueBy_blanks]
  have solid := dropWhile_isBlank_twice s
  generalize s.dropWhile isBlank = t at solid ⊢
  cases t with
  | nil => rfl
  | cons c t =>
    by_cases array : c = '['
    · subst array
      rw [valueBy_list]
      rfl
    by_cases object : c = '\x7b'
    · subst object
      rw [valueBy_object]
      rfl
    · simp only [wrongType, valueBy, wrongNumber, wrongString, run_bind, run_blanks, run_peek,
        solid, List.head?_cons, Option.some.injEq, array, object, if_false]

/-- **A node is recognised while it is read as it is in the value that is read whole.** -/
theorem noteRead_upto : Accord.node.Upto n noteRead (Json.read maxDepth) := by
  rw [noteRead_eq]
  refine Upto.expecting ⟨rfl, fun _ => rfl⟩ (fun _ => ⟨rfl, fun _ => rfl⟩)
    (Upto.wrongNumber fun _ => ⟨rfl, fun _ => rfl⟩) (Upto.wrongString fun _ => ⟨rfl, fun _ => rfl⟩)
    (Upto.after next fun _ => ?_) (Upto.after next fun _ => noteMembers_upto)
  refine readItems_upto.bind (fun read before same => Upto.pure same) ?_
    (fun _ _ never => never.elim)
  intro before fault stays
  obtain ⟨stuck, shape⟩ := stays
  refine Gives.pure ⟨stuck, fun recognised => shape ?_⟩
  rw [Value.ofJson?, stuck] at recognised
  simpa using recognised

/-- What noting says of a text is what the reader of nodes says. -/
theorem ofText_eq (text : String) :
    Node.ofText text =
      match noteRead.run text.toList with
      | .error fault => .error (.malformed fault)
      | .ok ((n, _), rest) =>
        if rest.all isBlank then .ok n else .error (.malformed .trailingText) := by
  rw [ofText, readAll, read_eq_map, run_fmap]
  cases noteRead.run text.toList with
  | error fault => rfl
  | ok taken =>
    simp only [Except.map]
    split <;> rfl

theorem ofText_eq_ok {text : String} {n : Node} :
    Node.ofText text = .ok n ↔
      ∃ noted rest, noteRead.run text.toList = .ok ((n, noted), rest) ∧ rest.all isBlank := by
  rw [ofText_eq]
  constructor
  · intro ok
    split at ok
    · cases ok
    split at ok
    · cases ok
      exact ⟨_, _, ‹_›, ‹_›⟩
    · cases ok
  · rintro ⟨noted, rest, streamed, blank⟩
    simp only [streamed, blank, if_true]

end Node

/-! ## Texts -/

/-- **The two ways of reading a tree agree.** A text that holds a value that is a node holds that
node; one that holds a value of another sort is refused as a node for its shape. A text that holds a
node holds it as a value too, unless there is a fault of form, and there is none if each member of
the outermost node that is no field has a value that can be read. -/
theorem ofText_streaming (text : String) :
    (∀ n, Value.ofText text = .ok (.node n) → Node.ofText text = .ok n) ∧
    (∀ v, Value.ofText text = .ok v → v.isNode = false →
      ∃ fault, Node.ofText text = .error (.malformed fault) ∧ fault.kind = .shape) ∧
    (∀ n, Node.ofText text = .ok n →
      (Value.ofText text = .ok (.node n) ∨
        ∃ fault, Value.ofText text = .error (.malformed fault) ∧ fault.kind = .form) ∧
      ((∀ member ∈ Node.passedOver text, Node.ValueReads member) →
        Value.ofText text = .ok (.node n))) := by
  have accord := Node.noteRead_upto text.toList (Nat.le_refl _)
  refine ⟨fun n ok => ?_, fun v ok other => ?_, fun n ok => ?_⟩
  · obtain ⟨j, rest, whole, recognised, blank⟩ := Value.ofText_eq_ok.mp ok
    rw [whole] at accord
    have isNode := Value.ofJson?_eq_node.mp recognised
    cases streamed : Node.noteRead.run text.toList with
    | error fault =>
      rw [streamed] at accord
      rw [accord.1] at isNode
      cases isNode
    | ok taken =>
      rw [streamed] at accord
      obtain ⟨⟨m, noted⟩, rest'⟩ := taken
      obtain ⟨same, rfl⟩ := accord
      obtain rfl : n = m := Option.some.inj (isNode.symm.trans same)
      exact Node.ofText_eq_ok.mpr ⟨noted, rest', streamed, blank⟩
  · obtain ⟨j, rest, whole, recognised, blank⟩ := Value.ofText_eq_ok.mp ok
    rw [whole] at accord
    cases streamed : Node.noteRead.run text.toList with
    | error fault =>
      rw [streamed] at accord
      exact ⟨fault, by rw [Node.ofText_eq, streamed], accord.2 (by rw [recognised]; rfl)⟩
    | ok taken =>
      rw [streamed] at accord
      have isNode := Value.ofJson?_eq_node.mpr accord.1
      rw [recognised] at isNode
      cases isNode
      cases other
  · obtain ⟨noted, rest, streamed, blank⟩ := Node.ofText_eq_ok.mp ok
    rw [streamed] at accord
    cases whole : (Json.read maxDepth).run text.toList with
    | error fault =>
      rw [whole] at accord
      obtain ⟨form, member, mem, unread⟩ := accord
      refine ⟨.inr ⟨fault, by rw [Value.ofText_eq, whole], form⟩, fun reads => ?_⟩
      refine absurd (reads member ?_) unread
      rw [Node.passedOver, streamed]
      exact mem
    | ok taken =>
      rw [whole] at accord
      obtain ⟨j, rest'⟩ := taken
      obtain ⟨isNode, rfl⟩ := accord
      have value : Value.ofText text = .ok (.node n) :=
        Value.ofText_eq_ok.mpr ⟨j, rest, whole, Value.ofJson?_eq_node.mpr isNode, blank⟩
      exact ⟨.inl value, fun _ => value⟩

/-- A node in a text, a list that is none, and two nodes with a member that is no field: a number
that is too great is passed over and cannot be read. -/
theorem ofText_streaming_texts :
    (∃ n, Node.ofText "[\"a\", 1]" = .ok n) ∧
    (∃ fault, Node.ofText "[null]" = .error (.malformed fault) ∧ fault.kind = .shape) ∧
    (∃ fault, Value.ofText "\x7b\"kind\": \"a\", \"b\": 1e999\x7d" = .error (.malformed fault) ∧
      fault.kind = .form) ∧
    (∃ n, Value.ofText "\x7b\"b\": [1], \"kind\": \"a\"\x7d" = .ok (.node n)) := by
  have read : ∀ {ε α : Type} (x : Except ε α) (property : α → Bool),
      x.toOption.any property = true → ∃ a, x = .ok a ∧ property a = true := by
    intro ε α x property holds
    cases x with
    | error e => cases holds
    | ok a => exact ⟨a, rfl, holds⟩
  refine ⟨?_, ?_, ?_, ?_⟩
  · obtain ⟨v, value, isNode⟩ := read (Value.ofText "[\"a\", 1]") Value.isNode (by decide +kernel)
    cases v with
    | node n => exact ⟨n, (ofText_streaming _).1 n value⟩
    | _ => cases isNode
  · obtain ⟨v, value, other⟩ := read (Value.ofText "[null]") (fun v => !v.isNode)
      (by decide +kernel)
    exact (ofText_streaming _).2.1 v value (by simpa using other)
  · obtain ⟨n, node, _⟩ := read (Node.ofText "\x7b\"kind\": \"a\", \"b\": 1e999\x7d")
      (fun _ => true) (by decide +kernel)
    rcases ((ofText_streaming _).2.2 n node).1 with value | form
    · have refused : (Value.ofText "\x7b\"kind\": \"a\", \"b\": 1e999\x7d").isOk = false := by
        decide +kernel
      rw [value] at refused
      cases refused
    · exact form
  · obtain ⟨n, node, _⟩ := read (Node.ofText "\x7b\"b\": [1], \"kind\": \"a\"\x7d")
      (fun _ => true) (by decide +kernel)
    refine ⟨n, ((ofText_streaming _).2.2 n node).2 ?_⟩
    have noted : Node.passedOver "\x7b\"b\": [1], \"kind\": \"a\"\x7d" =
        [": [1], \"kind\": \"a\"\x7d".toList] := by decide +kernel
    intro member mem
    rw [noted, List.mem_singleton] at mem
    subst mem
    obtain ⟨taken, value, _⟩ := read
      ((colon >>= fun _ => Json.read (maxDepth - 1)).run ": [1], \"kind\": \"a\"\x7d".toList)
      (fun _ => true) (by decide +kernel)
    exact ⟨taken, value⟩

end ShortForm
