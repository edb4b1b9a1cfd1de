import ShortForm.Proofs.Json.Bounded
import ShortForm.Proofs.Literal
import ShortForm.Proofs.Printer.Termination
import ShortForm.Proofs.Tree.Reencoded

/-!
# Doubles that are read are finite

Every number that is read has bounds (`Number.gives_read`), and this is carried to the doubles of a
tree along both readers: through the JSON value that is buffered and then recognised
(`Value.isWritable_of_ofJson?`), and through the fields of a node that is recognised while it is
read (`Node.gives_read`). A whole number that is too great for a signed word is a double too, and a
finite one.

So of a tree that was read writing loses nothing, and printing it never comes to the name of an
infinity or of no number by way of a double (`ofText_finite`).
-/

namespace ShortForm

open Reader Json

/-! ## Trees of which writing loses nothing -/

/-- The doubles in the value are finite, and the names of the children of each node are distinct. -/
structure Value.IsWritable (v : Value) : Prop where
  finite : ∀ x ∈ v.floats, x.isFinite
  distinct : v.NamesDistinct

/-- The children can be those of a node of which writing loses nothing. -/
structure ChildrenWritable (children : Named Value) : Prop where
  finite : ∀ x ∈ childrenFloats children, x.isFinite
  names : (Named.names children).Nodup
  distinct : ChildrenNamesDistinct children

theorem ChildrenWritable.node {n : Node} (writable : ChildrenWritable n.children) :
    (Value.node n).IsWritable := by
  obtain ⟨kind, flags, line, children⟩ := n
  exact ⟨writable.finite, writable.names, writable.distinct⟩

theorem ChildrenWritable.nil : ChildrenWritable [] where
  finite _ none := by cases none
  names := List.nodup_nil
  distinct := trivial

/-- The doubles of a child that is put in are added, and no others. -/
theorem mem_childrenFloats_put {children : Named Value} {name : String} {v : Value} {x : Binary64}
    (mem : x ∈ childrenFloats (children.put name v)) :
    x ∈ childrenFloats children ∨ x ∈ v.floats := by
  induction children with
  | nil => simpa [Named.put, childrenFloats] using mem
  | cons child children ih =>
    obtain ⟨k, w⟩ := child
    rw [Named.put] at mem
    split at mem
    · simp only [childrenFloats, List.mem_append] at mem ⊢
      exact mem.elim .inr fun later => .inl (.inr later)
    · simp only [childrenFloats, List.mem_append] at mem ⊢
      exact mem.elim (fun here => .inl (.inl here)) fun later => (ih later).imp_left .inr

theorem ChildrenWritable.put {children : Named Value} (writable : ChildrenWritable children)
    (name : String) {v : Value} (value : v.IsWritable) :
    ChildrenWritable (children.put name v) where
  finite x mem := (mem_childrenFloats_put mem).elim (writable.finite x) (value.finite x)
  names := Named.nodup_names_put name v writable.names
  distinct := writable.distinct.put name value.distinct

/-! ## Trees that are recognised -/

theorem Json.EachNumber.parts {holds : Number → Prop} {j k : Json} (each : j.EachNumber holds)
    (mem : k ∈ j.parts) : k.EachNumber holds := by
  cases each with
  | array items => exact items k mem
  | object members =>
    obtain ⟨m, here, rfl⟩ := List.mem_map.mp mem
    exact members m here
  | _ => cases mem

/-- A double is recognised in a number. -/
theorem Value.ofJson?_eq_float {j : Json} {x : Binary64}
    (recognised : ofJson? j = some (.float x)) : ∃ n, j = .number n ∧ ofNumber n = .float x := by
  cases j with
  | number n => exact ⟨n, rfl, Option.some.inj recognised⟩
  | array items =>
    rw [ofJson?] at recognised
    split at recognised
    · cases recognised
    · obtain ⟨_, _, never⟩ := Option.map_eq_some_iff.mp recognised
      cases never
  | object members =>
    rw [ofJson?] at recognised
    obtain ⟨_, _, never⟩ := Option.map_eq_some_iff.mp recognised
    cases never
  | _ => cases recognised

/-- A double that a number with bounds is taken for is finite, also where the number is whole. -/
theorem Value.finite_of_ofNumber {n : Number} {x : Binary64} (bounded : n.IsBounded)
    (same : ofNumber n = .float x) : x.isFinite := by
  cases n with
  | int n =>
    simp only [ofNumber] at same
    split at same
    · cases same
    · obtain ⟨low, high⟩ := bounded
      have fits : n.natAbs ≤ Numeral.maxWord := by
        unfold Numeral.maxWord
        omega
      cases same
      exact Binary64.isFinite_ofParts _ (Magnitude.ofNat_lt_infinity fits)
  | float y =>
    cases same
    exact bounded

theorem finite_of_slotsOf? {items : List Json} {slots : List (Option Node)}
    (each : ∀ j ∈ items, ∀ n, Node.ofJson? j = some n → ∀ x ∈ n.floats, x.isFinite)
    (recognised : slotsOf? items = some slots) : ∀ x ∈ slotsFloats slots, x.isFinite := by
  induction items generalizing slots with
  | nil =>
    cases recognised
    intro x none
    cases none
  | cons j items ih =>
    obtain ⟨slot, rest, rfl, first, later⟩ := slotsOf?_cons recognised
    have inside := ih (fun k mem => each k (List.mem_cons_of_mem j mem)) later
    cases slot with
    | none => exact inside
    | some n =>
      have here := each j List.mem_cons_self n (slotOf?_eq_node first)
      exact fun x mem => (List.mem_append.mp mem).elim (here x) (inside x)

/-- The doubles of a tree that is recognised in numbers with bounds are finite. -/
theorem Value.finite_of_ofJson? (j : Json) (each : j.EachNumber Number.IsBounded) :
    ∀ v, ofJson? j = some v → ∀ x ∈ v.floats, x.isFinite := by
  -- Of the object that holds children the same is claimed of them.
  suffices both : (∀ v, Value.ofJson? j = some v → ∀ x ∈ v.floats, x.isFinite) ∧
      ∀ children, childrenOf? j = some children → ∀ x ∈ childrenFloats children, x.isFinite
    from both.1
  induction j using induct_parts with
  | step j ih =>
    refine ⟨fun v recognised => ?_, fun children held => ?_⟩
    · cases v with
      | float x =>
        obtain ⟨n, rfl, same⟩ := Value.ofJson?_eq_float recognised
        cases each with
        | number bounded => exact List.forall_mem_singleton.mpr (finite_of_ofNumber bounded same)
      | node n =>
        obtain ⟨kind, flags, line, children⟩ := n
        rcases Node.children_of_ofJson? (Value.ofJson?_eq_node.mp recognised) with none | held
        · cases none
          exact fun x mem => by cases mem
        · obtain ⟨k, mem, held⟩ := held
          exact (ih k mem (each.parts mem)).2 _ held
      | list slots =>
        obtain ⟨items, rfl, found⟩ := Value.ofJson?_eq_list recognised
        exact finite_of_slotsOf? (fun k mem n node =>
          (ih k mem (each.parts mem)).1 (.node n) (Value.ofJson?_eq_node.mpr node)) found
      | _ => exact fun x mem => by cases mem
    · refine childrenOf?_induct
        (P := fun children => ∀ x ∈ childrenFloats children, x.isFinite)
        (fun x mem => by cases mem) ?_ held
      intro children name v k mem recognised before x here
      exact (mem_childrenFloats_put here).elim (before x)
        ((ih k mem (each.parts mem)).1 v recognised x)

/-- **Of a tree that is recognised in numbers with bounds writing loses nothing.** -/
theorem Value.isWritable_of_ofJson? {j : Json} {v : Value} (each : j.EachNumber Number.IsBounded)
    (recognised : ofJson? j = some v) : v.IsWritable :=
  ⟨finite_of_ofJson? j each v recognised, namesDistinct_of_ofJson? j v recognised⟩

/-! ## Trees that are read -/

theorem Value.gives_readWithin (room : Nat) : (readWithin room).Gives IsWritable := by
  refine (Json.gives_read Number.gives_read room).bind fun j each => ?_
  cases recognised : ofJson? j with
  | some v => exact Gives.pure (isWritable_of_ofJson? each recognised)
  | none => exact Gives.fail _

/-- Where something else stands than what was asked for nothing is read. -/
theorem Json.gives_wrongType {α : Type} {P : α → Prop} (expected : Expected) :
    (wrongType expected : Reader α).Gives P := by
  unfold wrongType
  exact gives_valueBy (Gives.fail _) (fun _ => Gives.fail _)
    ((Gives.trivial Number.read).bind fun _ _ => Gives.fail _)
    ((Gives.trivial stringRest).bind fun _ _ => Gives.fail _) (Gives.fail _) (Gives.fail _)

theorem Json.gives_nextItem {α : Type} {P : α → Prop} {item : Reader α} {absent : α}
    (item_gives : item.Gives P) (none : P absent) : (nextItem item absent).Gives P := by
  refine (Gives.trivial hasNextItem).bind fun more _ => ?_
  cases more with
  | true => exact item_gives
  | false => exact Gives.pure none

/-- The children among the fields, if they are known, can be those of a node of which writing loses
nothing. -/
def Fields.IsWritable (fields : Fields) : Prop :=
  ∀ children, fields.children = some children → ChildrenWritable children

theorem Fields.IsWritable.node {fields : Fields} {n : Node} (writable : fields.IsWritable)
    (whole : fields.node? = some n) : (Value.node n).IsWritable := by
  obtain ⟨kind, _, rfl⟩ := Option.map_eq_some_iff.mp whole
  refine ChildrenWritable.node ?_
  cases known : fields.children with
  | none => exact .nil
  | some children => exact writable children known

namespace Node

theorem gives_readChildren : readChildren.Gives ChildrenWritable := by
  refine (Gives.trivial blanks).bind fun _ _ => (Gives.trivial peek).bind fun c _ => ?_
  by_cases opens : c = some '\x7b'
  · simp only [if_pos opens]
    refine (Gives.trivial next).bind fun _ _ =>
      gives_objectRest (fun children name before => ?_) .nil
    exact (Gives.trivial colon).bind fun _ _ => (Value.gives_readWithin childRoom).bind
      fun v here => Gives.pure (before.put name here)
  · simp only [if_neg opens]
    exact gives_wrongType _

theorem gives_readField {fields : Fields} (before : fields.IsWritable) (field : Field) :
    (readField fields field).Gives Fields.IsWritable := by
  cases field with
  | kind => exact (Gives.trivial Kind.read).bind fun _ _ => Gives.pure before
  | flags | line => exact (Gives.trivial readWord).bind fun _ _ => Gives.pure before
  | children =>
    refine gives_readChildren.bind fun children here => Gives.pure fun known same => ?_
    exact Option.some.inj same ▸ here

theorem gives_readMember {fields : Fields} (before : fields.IsWritable) (name : String) :
    (readMember fields name).Gives Fields.IsWritable := by
  unfold readMember
  split
  · exact (Gives.trivial colon).bind fun _ _ => (Gives.trivial pass).bind fun _ _ =>
      Gives.pure before
  · split
    · exact Gives.fail _
    · exact (Gives.trivial colon).bind fun _ _ => gives_readField before _

theorem gives_readMembers : readMembers.Gives fun n => (Value.node n).IsWritable := by
  have fields : (objectRest (refuseClosing '\x7d') stringRest readMember {}).Gives
      Fields.IsWritable :=
    gives_objectRest (fun _ name before => gives_readMember before name) fun _ none => by cases none
  refine fields.bind fun fields writable => ?_
  cases whole : fields.node? with
  | some n => exact Gives.pure (writable.node whole)
  | none => exact Gives.fail _

theorem gives_readItems : readItems.Gives fun n => (Value.node n).IsWritable := by
  refine (Gives.trivial hasItem).bind fun some _ => ?_
  cases some with
  | false => exact Gives.fail _
  | true =>
    refine (Gives.trivial Kind.read).bind fun kind _ => ?_
    refine (Gives.trivial (nextItem Flags.read .zero)).bind fun flags _ => ?_
    refine (Gives.trivial (nextItem readWord 0)).bind fun line _ => ?_
    refine (gives_nextItem gives_readChildren .nil).bind fun children writable => ?_
    exact (Gives.trivial listEnd).bind fun _ _ => Gives.pure writable.node

/-- **Of a node that is recognised while it is read writing loses nothing.** What stands in the
members that are passed over does not matter. -/
theorem gives_read : Node.read.Gives fun n => (Value.node n).IsWritable := by
  refine (Gives.trivial blanks).bind fun _ _ => (Gives.trivial peek).bind fun c _ => ?_
  by_cases list : c = some '['
  · simp only [if_pos list]
    exact (Gives.trivial next).bind fun _ _ => gives_readItems
  by_cases object : c = some '\x7b'
  · simp only [if_neg list, if_pos object]
    exact (Gives.trivial next).bind fun _ _ => gives_readMembers
  · simp only [if_neg list, if_neg object]
    exact gives_wrongType _

end Node

/-- What a reader gives it gives of whole texts. -/
theorem Reader.Gives.readAll {α : Type} {p : Reader α} {P : α → Prop} (gives : p.Gives P)
    {text : String} {a : α} (ok : p.readAll text = .ok a) : P a := by
  obtain ⟨_, run, _⟩ := readAll_eq_ok ok
  exact gives run

theorem Value.isWritable_of_ofText {text : String} {v : Value} (ok : ofText text = .ok v) :
    v.IsWritable := by
  unfold ofText at ok
  cases read : Value.read.readAll text with
  | error fault => simp [read, Except.mapError] at ok
  | ok w =>
    rw [read] at ok
    cases ok
    exact (gives_readWithin maxDepth).readAll read

theorem Node.isWritable_of_ofText {text : String} {n : Node} (ok : ofText text = .ok n) :
    (Value.node n).IsWritable := by
  unfold ofText at ok
  cases read : Node.read.readAll text with
  | error fault => simp [read, Except.mapError] at ok
  | ok m =>
    rw [read] at ok
    cases ok
    exact gives_read.readAll read

/-! ## Trees that are printed -/

theorem Node.mem_floats_of_child {n : Node} {name : String} {v : Value} {x : Binary64}
    (mem : (name, v) ∈ n.children) (here : x ∈ v.floats) : x ∈ n.floats := by
  obtain ⟨kind, flags, line, children⟩ := n
  exact mem_childrenFloats.mpr ⟨name, v, mem, here⟩

/-- The doubles of a value inside a node are doubles of the node. -/
theorem Value.Inside.mem_floats {v : Value} {n : Node} {x : Binary64} (inside : v.Inside n)
    (here : x ∈ v.floats) : x ∈ n.floats := by
  induction inside with
  | child mem => exact Node.mem_floats_of_child mem here
  | slot mem slot => exact Node.mem_floats_of_child mem (mem_slotsFloats.mpr ⟨_, slot, here⟩)
  | trans _ _ deeper higher => exact higher (deeper here)

/-- A step of printing turns to no new doubles. -/
theorem Registry.mem_floats_of_turn {r : Registry} {v w : Value} {x : Binary64}
    (turn : w ∈ r.turns v) (here : x ∈ w.floats) : x ∈ v.floats := by
  rw [mem_turns_iff] at turn
  cases v with
  | node n => exact (inside_of_mem_pieces turn).mem_floats here
  | list slots =>
    obtain ⟨m, mem, rfl⟩ := slot_of_mem_pieces turn
    exact mem_slotsFloats.mpr ⟨m, mem, here⟩
  | _ => simp [pieces, Piece.ofString?, Value.literal?] at turn

/-- Printing comes to no new doubles. -/
theorem Registry.mem_floats_of_turns {r : Registry} {v w : Value} {x : Binary64}
    (turns : Relation.ReflTransGen (fun a b => b ∈ r.turns a) v w) (here : x ∈ w.floats) :
    x ∈ v.floats := by
  induction turns with
  | refl => exact here
  | tail _ turn ih => exact ih (mem_floats_of_turn turn here)

/-- The literal of a finite double is no word. -/
theorem Literal.float_of_finite {x : Binary64} (finite : x.isFinite) :
    float x ∉ ["INF", "-INF", "NAN"] := by
  have mark := Binary64.mark_mem_decimal floatStyle x
  rw [← toList_float finite] at mark
  intro word
  simp only [List.mem_cons, List.not_mem_nil, or_false] at word
  rcases word with word | word | word <;> simp [word] at mark

/-- **Doubles that are read are finite.** Whatever a text holds as digits and exponents, and whether
it is read as a value or as a node: every double of the tree is finite and is written as a number,
the JSON value that the tree is written as is that of the same tree, and wherever printing comes to
a double, whatever renderers there are, it does not show it as an infinity or as no number. -/
theorem ofText_finite (text : String) (v : Value)
    (ok : Value.ofText text = .ok v ∨ ∃ n, v = .node n ∧ Node.ofText text = .ok n) :
    (∀ x ∈ v.floats, x.isFinite ∧ (Value.float x).toJson = .number (.float x)) ∧
    Value.ofJson? v.toJson = some v ∧
    ∀ (p : Printer) (x : Binary64),
      Relation.ReflTransGen (fun a b => b ∈ p.registry.turns a) v (.float x) →
        p.render (.float x) ∉ ["INF", "-INF", "NAN"] := by
  have writable : v.IsWritable := by
    rcases ok with value | ⟨n, rfl, node⟩
    · exact Value.isWritable_of_ofText value
    · exact Node.isWritable_of_ofText node
  refine ⟨fun x mem => ⟨writable.finite x mem, if_pos (writable.finite x mem)⟩, ?_,
    fun p x turns => ?_⟩
  · have again := Value.ofJson?_toJson v writable.distinct
    rwa [v.kept_of_finite writable.finite] at again
  · have mem := Registry.mem_floats_of_turns turns (List.mem_singleton_self x)
    rw [p.render_of_literal rfl]
    exact Literal.float_of_finite (writable.finite x mem)

/-- Two doubles of a node, one of more digits than a word holds, and one that is written without a
point and an exponent but is too great for a signed word. A member that is no field holds a number
that is too great for a double. -/
theorem ofText_finite_node :
    let text := "\x7b\"x\":1e999,\"kind\":\"AST_NAME\",\"children\":" ++
      "\x7b\"a\":1797693134862315807000000000e280,\"b\":-9223372036854775809\x7d\x7d"
    ∃ n, Node.ofText text = .ok n ∧ n.floats.length = 2 ∧ (∀ x ∈ n.floats, x.isFinite) ∧
      Value.ofJson? n.toJson = some (.node n) := by
  intro text
  have read : (Node.ofText text).toOption.any (fun n => n.floats.length = 2) := by decide +kernel
  cases ok : Node.ofText text with
  | error e => simp [ok, Except.toOption] at read
  | ok n =>
    obtain ⟨finite, again, _⟩ := ofText_finite text (.node n) (.inr ⟨n, rfl, ok⟩)
    exact ⟨n, rfl, by simpa [ok, Except.toOption] using read, fun x mem => (finite x mem).1, again⟩

end ShortForm
