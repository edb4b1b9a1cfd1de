import ShortForm.Proofs.Json.Accord
import ShortForm.Tree.Read

/-!
# Members that are passed over

Which members of a node are passed over when it is read, and where in the text they stand. The
reader of nodes does not say; `noteRead` is the same reader with the texts of these members noted,
and `read_eq_map` says that noting changes nothing: neither what is read nor which fault is found.
-/

namespace ShortForm

open Reader Json

namespace Reader

variable {α β σ τ : Type}

/-- The text from here on, which is left as it is. -/
def here : Reader (List Char) where
  run s := .ok (s, s)
  length_le h := by cases h; exact Nat.le_refl _

@[simp] theorem run_here (s : List Char) : here.run s = .ok (s, s) := rfl

/-! ## Changing what is read -/

theorem run_fmap (f : α → β) (p : Reader α) (s : List Char) :
    (f <$> p).run s = (p.run s).map fun taken => (f taken.1, taken.2) := by
  change (p >>= fun a => pure (f a)).run s = _
  rw [run_bind]
  cases p.run s <;> rfl

theorem fmap_pure (f : α → β) (a : α) : f <$> (pure a : Reader α) = pure (f a) := rfl

theorem fmap_fail (f : α → β) (fault : Fault) : f <$> (fail fault : Reader α) = fail fault := rfl

theorem fmap_bind {γ : Type} (f : β → γ) (p : Reader α) (g : α → Reader β) :
    f <$> (p >>= g) = p >>= fun a => f <$> g a :=
  bind_bind p g fun b => pure (f b)

theorem bind_fmap {γ : Type} (f : α → β) (p : Reader α) (g : β → Reader γ) :
    (f <$> p) >>= g = p >>= fun a => g (f a) :=
  bind_bind p (fun a => pure (f a)) g

/-- A loop may keep more than another loop does. -/
theorem map_loop {step₁ : σ → Char → Reader (σ ⊕ σ)} {step₂ : τ → Char → Reader (τ ⊕ τ)}
    {atEnd : Fault} (g : τ → σ)
    (each : ∀ state c, step₁ (g state) c = Sum.map g g <$> step₂ state c) (state : τ) :
    loop step₁ atEnd (g state) = g <$> loop step₂ atEnd state := by
  apply ext
  intro s
  induction length : s.length using Nat.strongRecOn generalizing s state with
  | ind n ih =>
    cases s with
    | nil =>
      rw [run_fmap, run_loop_nil, run_loop_nil]
      rfl
    | cons c s =>
      rw [List.length_cons] at length
      have round : (g <$> loop step₂ atEnd state).run (c :: s) =
          (step₂ state c >>= fun outcome =>
            g <$> Sum.elim pure (loop step₂ atEnd) outcome).run s := by
        rw [← fmap_bind, run_fmap, run_fmap, run_loop_eq_bind]
      rw [round, run_loop_eq_bind, each, bind_fmap, run_bind, run_bind]
      cases eq : (step₂ state c).run s with
      | error fault => rfl
      | ok taken =>
        obtain ⟨outcome, rest⟩ := taken
        have shorter := (step₂ state c).length_le eq
        cases outcome with
        | inl b => rfl
        | inr state' => exact ih rest.length (by omega) state' rest rfl

end Reader

namespace Json

variable {σ τ κ : Type} {behindComma : Reader Unit} {nameRest : Reader κ}
  {member₁ : σ → κ → Reader σ} {member₂ : τ → κ → Reader τ}

theorem map_memberStep (g : τ → σ)
    (each : ∀ state name, member₁ (g state) name = g <$> member₂ state name) (state : τ)
    (c : Char) :
    memberStep behindComma nameRest member₁ (g state) c =
      Sum.map g g <$> memberStep behindComma nameRest member₂ state c := by
  unfold memberStep
  split
  · rfl
  split
  · rfl
  split
  · simp only [fmap_bind, each, bind_fmap]
    rfl
  · rfl

/-- An object is read alike where more is kept of its members. -/
theorem map_objectRest (g : τ → σ)
    (each : ∀ state name, member₁ (g state) name = g <$> member₂ state name) (state : τ) :
    objectRest behindComma nameRest member₁ (g state) =
      g <$> objectRest behindComma nameRest member₂ state := by
  have more : ∀ state, moreMembers behindComma nameRest member₁ (g state) =
      g <$> moreMembers behindComma nameRest member₂ state :=
    map_loop g fun state c => map_memberStep g each state c
  unfold objectRest
  simp only [fmap_bind]
  refine congrArg _ (funext fun _ => congrArg _ (funext fun c => ?_))
  cases c with
  | none => rfl
  | some c =>
    simp only
    split
    · rfl
    · simp only [fmap_bind, each, bind_fmap, more]

/-- What stands where something else was expected is told the same way to whoever expects it. -/
theorem map_wrongType {α β : Type} (f : α → β) (expected : Expected) :
    f <$> (wrongType expected : Reader α) = wrongType expected := by
  unfold wrongType
  simp only [valueBy_eq_bind, fmap_bind]
  refine congrArg _ (funext fun sort => ?_)
  cases sort with
  | number => simp only [Start.pick, fmap_bind, fmap_fail]
  | string => simp only [Start.pick, fmap_bind, fmap_fail]
  | null => rfl
  | bool b => rfl
  | list => rfl
  | object => rfl

end Json

namespace Node

/-- Reads a member of a node from behind its name on, as `readMember` does. The text of a member
that is no field is noted, from its colon on. -/
def noteMember (state : Fields × List (List Char)) (name : String) :
    Reader (Fields × List (List Char)) := do
  let text ← here
  let fields ← readMember state.1 name
  pure (fields, if (Field.ofName? name).isSome then state.2 else text :: state.2)

/-- Reads the rest of a node that is written as an object, and notes what is passed over. -/
def noteMembers : Reader (Node × List (List Char)) := do
  let (fields, noted) ← objectRest (refuseClosing '\x7d') stringRest noteMember ({}, [])
  match fields.node? with
  | some n => pure (n, noted)
  | none => fail (.missingField Field.kind.name)

/-- Reads a node, and notes what is passed over. -/
def noteRead : Reader (Node × List (List Char)) := do
  blanks
  let c ← peek
  if c = some '[' then
    next
    let n ← readItems
    pure (n, [])
  else if c = some '\x7b' then
    next
    noteMembers
  else wrongType .node

/-- The texts of the members that are passed over when a node is read, each from its colon on. -/
def passedOver (text : String) : List (List Char) :=
  match noteRead.run text.toList with
  | .ok ((_, noted), _) => noted
  | .error _ => []

/-- The value behind the colon of a member of the outermost node can be read. -/
def ValueReads (text : List Char) : Prop :=
  ∃ taken, (do
    colon
    Json.read (maxDepth - 1)).run text = .ok taken

theorem readMember_eq_map (state : Fields × List (List Char)) (name : String) :
    readMember state.1 name = Prod.fst <$> noteMember state name := by
  apply ext
  intro s
  unfold noteMember
  simp only [fmap_bind, run_bind, run_here]
  cases (readMember state.1 name).run s <;> rfl

theorem readMembers_eq_map : readMembers = Prod.fst <$> noteMembers := by
  have fields := @map_objectRest _ _ _ (refuseClosing '\x7d') stringRest _ _ Prod.fst
    readMember_eq_map ({}, [])
  unfold readMembers noteMembers
  rw [fmap_bind]
  refine (congrArg (· >>= _) fields).trans ((bind_fmap _ _ _).trans ?_)
  refine congrArg _ (funext fun state => ?_)
  obtain ⟨fields, noted⟩ := state
  simp only
  cases fields.node? <;> rfl

/-- Noting what is passed over changes nothing else. -/
theorem read_eq_map : Node.read = Prod.fst <$> noteRead := by
  unfold Node.read noteRead
  simp only [fmap_bind]
  refine congrArg _ (funext fun _ => congrArg _ (funext fun c => ?_))
  split
  · apply ext
    intro s
    simp only [fmap_bind, run_bind, run_next, fmap_pure]
    cases readItems.run s.tail <;> rfl
  split
  · rw [fmap_bind, readMembers_eq_map]
  · rw [map_wrongType]

end Node

end ShortForm
