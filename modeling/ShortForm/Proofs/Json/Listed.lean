import Mathlib.Data.List.Forall2
import ShortForm.Proofs.Json.Nesting
import ShortForm.Proofs.Json.WrittenNumber
import ShortForm.Json.Read

/-!
# What stands between brackets

Items with commas between them, and blanks around each. `Listed` says so of a text, for items of
any sort: given what a text of one item is, it tells what a text of a list of them is. The readers
of lists and of objects then have one law in each direction. A text of a list is read by reading
the texts of its items (`Listed.listRest_run`, `Listed.objectRest_run`), and what is read from
between brackets is a text of a list (`listRest_takes`, `objectRest_takes`).

Two more laws are about the texts alone: the brackets of a list are nested as deeply as those of
its items (`Listed.deepest`), and up to the closing bracket a text is a text of one list only
(`Listed.unique`).
-/

namespace ShortForm

open Reader

namespace Reader

variable {α β σ : Type}

/-- What the reader takes is a text of what it gives. -/
def Takes (p : Reader α) (text : α → List Char → Prop) : Prop :=
  ∀ ⦃s a rest⦄, p.run s = .ok (a, rest) → ∃ t, s = t ++ rest ∧ text a t

theorem Takes.mono {p : Reader α} {text text' : α → List Char → Prop} (takes : p.Takes text)
    (weaker : ∀ a t, text a t → text' a t) : p.Takes text' := by
  intro s a rest run
  obtain ⟨t, eq, here⟩ := takes run
  exact ⟨t, eq, weaker a t here⟩

theorem Takes.pure {text : α → List Char → Prop} {a : α} (h : text a []) :
    (Pure.pure a : Reader α).Takes text := by
  intro s b rest run
  cases run
  exact ⟨[], rfl, h⟩

theorem Takes.fail {text : α → List Char → Prop} (fault : Fault) :
    (Reader.fail fault : Reader α).Takes text := by
  intro s a rest run
  cases run

theorem Takes.bind {p : Reader α} {f : α → Reader β} {first : α → List Char → Prop}
    {text : β → List Char → Prop} (takes : p.Takes first)
    (more : ∀ a t, first a t → (f a).Takes fun b u => text b (t ++ u)) :
    (p >>= f).Takes text := by
  intro s b rest run
  obtain ⟨a, middle, run, run'⟩ := run_bind_eq_ok.mp run
  obtain ⟨t, rfl, here⟩ := takes run
  obtain ⟨u, rfl, there⟩ := more a t here run'
  exact ⟨t ++ u, (List.append_assoc t u rest).symm, there⟩

/-- A loop takes a text round by round. -/
theorem Takes.loop {step : σ → Char → Reader (α ⊕ σ)} {atEnd : Fault}
    {text : σ → α → List Char → Prop}
    (each : ∀ state c, (step state c).Takes fun outcome t =>
      outcome.elim (fun a => text state a (c :: t))
        fun state' => ∀ a u, text state' a u → text state a (c :: (t ++ u)))
    (state : σ) : (Reader.loop step atEnd state).Takes (text state) := by
  intro s a rest run
  induction length : s.length using Nat.strongRecOn generalizing s state with
  | ind n ih =>
    cases s with
    | nil => simp at run
    | cons c s =>
      rw [run_loop_eq_bind] at run
      obtain ⟨outcome, middle, taken, run⟩ := run_bind_eq_ok.mp run
      obtain ⟨t, rfl, here⟩ := each state c taken
      cases outcome with
      | inl b =>
        cases run
        exact ⟨c :: t, rfl, here⟩
      | inr state' =>
        rw [List.length_cons, List.length_append] at length
        obtain ⟨u, rfl, there⟩ := ih middle.length (by omega) state' run rfl
        exact ⟨c :: (t ++ u), by simp, here a u there⟩

end Reader

namespace Json

/-! ## Blanks -/

/-- Nothing but blanks. -/
def Blanks (s : List Char) : Prop := ∀ c ∈ s, isBlank c

theorem Blanks.nil : Blanks [] := by
  intro c mem
  cases mem

theorem Blanks.append {s t : List Char} (first : Blanks s) (more : Blanks t) : Blanks (s ++ t) := by
  intro c mem
  exact (List.mem_append.mp mem).elim (first c) (more c)

theorem Blanks.dropWhile_append {gap : List Char} (blanks : Blanks gap) (s : List Char) :
    (gap ++ s).dropWhile isBlank = s.dropWhile isBlank :=
  List.dropWhile_append_of_pos blanks

/-- Behind blanks a numeral has ended if it has without them. -/
theorem Blanks.ends {gap s : List Char} (blanks : Blanks gap) (ends : Numeral.Ends s) :
    Numeral.Ends (gap ++ s) := by
  cases gap with
  | nil => exact ends
  | cons c gap =>
    apply Numeral.ends_cons
    have blank := blanks c List.mem_cons_self
    simp only [isBlank, Bool.or_eq_true, decide_eq_true_eq] at blank
    rcases blank with ((rfl | rfl) | rfl) | rfl <;> decide

/-- Blanks do not count. -/
theorem Blanks.deepest {gap : List Char} (blanks : Blanks gap) (opened : Nat) (rest : List Char) :
    deepest .outside opened (gap ++ rest) = deepest .outside opened rest := by
  refine deepest_plain (fun c mem mark => ?_) opened rest
  have blank := blanks c mem
  simp only [List.mem_cons, List.not_mem_nil, or_false] at mark
  rcases mark with rfl | rfl | rfl | rfl | rfl <;> exact absurd blank (by decide)

theorem blanks_takes : blanks.Takes fun _ t => Blanks t := by
  intro s a rest run
  cases run
  exact ⟨s.takeWhile isBlank, List.takeWhile_append_dropWhile.symm,
    fun c mem => List.all_eq_true.mp List.all_takeWhile c mem⟩

/-- A text begins with a character that is neither blank nor a closing bracket. -/
def BeginsValue (s : List Char) : Prop :=
  ∃ c t, s = c :: t ∧ isBlank c = false ∧ c ≠ ']' ∧ c ≠ '\x7d'

theorem BeginsValue.append {s : List Char} (begins : BeginsValue s) (rest : List Char) :
    BeginsValue (s ++ rest) := by
  obtain ⟨c, t, rfl, solid⟩ := begins
  exact ⟨c, t ++ rest, rfl, solid⟩

theorem BeginsValue.dropWhile {s : List Char} (begins : BeginsValue s) :
    s.dropWhile isBlank = s := by
  obtain ⟨c, t, rfl, solid, _⟩ := begins
  exact List.dropWhile_cons_of_neg (by simp [solid])

/-- Behind a comma nothing is refused where a value begins. -/
theorem refuseClosing_run {gap s : List Char} (blanks : Blanks gap) (begins : BeginsValue s)
    {close : Char} (closes : close = ']' ∨ close = '\x7d') :
    (refuseClosing close).run (gap ++ s) = .ok ((), s) := by
  have front : (gap ++ s).dropWhile isBlank = s :=
    (blanks.dropWhile_append s).trans begins.dropWhile
  obtain ⟨c, t, rfl, solid, list, object⟩ := begins
  have other : c ≠ close := by
    rcases closes with rfl | rfl
    · exact list
    · exact object
  simp [refuseClosing, front, other]

/-- Behind a comma only blanks are dropped. -/
theorem refuseClosing_takes (close : Char) : (refuseClosing close).Takes fun _ t => Blanks t := by
  refine blanks_takes.bind fun _ gap blanks => ?_
  intro s a rest run
  obtain ⟨c, middle, peeked, run⟩ := run_bind_eq_ok.mp run
  cases peeked
  split at run
  · cases run
  split at run
  · cases run
  · cases run
    exact ⟨[], rfl, blanks.append Blanks.nil⟩

/-! ## Lists -/

variable {α : Type} {text : α → List Char → Prop} {items : List α} {t : List Char}

/-- Texts of items, each behind a comma. -/
inductive MoreListed (text : α → List Char → Prop) : List α → List Char → Prop where
  | nil {gap : List Char} : Blanks gap → MoreListed text [] gap
  | cons {a : α} {items : List α} {gap gap' t more : List Char} : Blanks gap → Blanks gap' →
      text a t → MoreListed text items more →
      MoreListed text (a :: items) (gap ++ ',' :: (gap' ++ (t ++ more)))

/-- Texts of items with commas between them. -/
inductive Listed (text : α → List Char → Prop) : List α → List Char → Prop where
  | nil {gap : List Char} : Blanks gap → Listed text [] gap
  | cons {a : α} {items : List α} {gap t more : List Char} : Blanks gap → text a t →
      MoreListed text items more → Listed text (a :: items) (gap ++ (t ++ more))

/-- Blanks in front of the first comma change nothing. -/
theorem MoreListed.blanks {gap : List Char} (blanks : Blanks gap)
    (listed : MoreListed text items t) : MoreListed text items (gap ++ t) := by
  cases listed with
  | nil more => exact .nil (blanks.append more)
  | cons more behind here listed =>
    rw [← List.append_assoc]
    exact .cons (blanks.append more) behind here listed

/-- What follows an item ends a numeral. -/
theorem MoreListed.ends (listed : MoreListed text items t) {close : Char}
    (closes : close = ']' ∨ close = '\x7d') (rest : List Char) :
    Numeral.Ends (t ++ close :: rest) := by
  cases listed with
  | nil blanks =>
    apply blanks.ends
    rcases closes with rfl | rfl <;> exact Numeral.ends_cons (by decide)
  | cons blanks _ _ _ =>
    rw [List.append_assoc]
    exact blanks.ends (Numeral.ends_cons (by decide))

theorem MoreListed.mono {text' : α → List Char → Prop} (listed : MoreListed text items t)
    (each : ∀ a ∈ items, ∀ u, text a u → text' a u) : MoreListed text' items t := by
  induction listed with
  | nil blanks => exact .nil blanks
  | @cons a items gap gap' u more blanks behind here _ ih =>
    exact .cons blanks behind (each a List.mem_cons_self u here)
      (ih fun b mem => each b (List.mem_cons_of_mem a mem))

theorem Listed.mono {text' : α → List Char → Prop} (listed : Listed text items t)
    (each : ∀ a ∈ items, ∀ u, text a u → text' a u) : Listed text' items t := by
  cases listed with
  | nil blanks => exact .nil blanks
  | @cons a items gap u more blanks here listed =>
    exact .cons blanks (each a List.mem_cons_self u here)
      (listed.mono fun b mem => each b (List.mem_cons_of_mem a mem))

section Represents

variable {β : Type} {text' : β → List Char → Prop} {rel : α → β → Prop}

/-- What is a text of an item is a text of a related item too, with blanks behind it. -/
def Represents (rel : α → β → Prop) (text : α → List Char → Prop) (text' : β → List Char → Prop) :
    Prop :=
  ∀ ⦃a t⦄, text a t → ∃ b u gap, t = u ++ gap ∧ Blanks gap ∧ rel a b ∧ text' b u

theorem MoreListed.represents (each : Represents rel text text')
    (listed : MoreListed text items t) :
    ∃ others, List.Forall₂ rel items others ∧ MoreListed text' others t := by
  induction listed with
  | nil blanks => exact ⟨[], .nil, .nil blanks⟩
  | cons blanks behind here _ ih =>
    obtain ⟨b, u, gap, rfl, after, related, here⟩ := each here
    obtain ⟨others, relateds, listed⟩ := ih
    refine ⟨b :: others, .cons related relateds, ?_⟩
    rw [List.append_assoc]
    exact .cons blanks behind here (listed.blanks after)

/-- A text of a list is a text of the list of the related items: blanks behind an item stand in
front of the comma. -/
theorem Listed.represents (each : Represents rel text text') (listed : Listed text items t) :
    ∃ others, List.Forall₂ rel items others ∧ Listed text' others t := by
  cases listed with
  | nil blanks => exact ⟨[], .nil, .nil blanks⟩
  | cons blanks here listed =>
    obtain ⟨b, u, gap, rfl, after, related, here⟩ := each here
    obtain ⟨others, relateds, listed⟩ := listed.represents each
    refine ⟨b :: others, .cons related relateds, ?_⟩
    rw [List.append_assoc]
    exact .cons blanks here (listed.blanks after)

end Represents

/-! ## Reading lists -/

section Reading

variable {σ κ : Type} {item : σ → Reader σ} {nameRest : Reader κ} {member : σ → κ → Reader σ}
  {f : σ → α → Except Fault σ}

/-- What each text of an item is read as, where it stands. -/
def ReadAs (text : α → List Char → Prop) (item : σ → Reader σ) (f : σ → α → Except Fault σ)
    (a : α) : Prop :=
  ∀ u, text a u → BeginsValue u ∧ ∀ state rest, Numeral.Ends rest →
    (item state).run (u ++ rest) = (f state a).map (·, rest)

theorem moreItems_blanks {gap : List Char} (blanks : Blanks gap) (behindComma : Reader Unit)
    (state : σ) (s : List Char) :
    (moreItems behindComma item state).run (gap ++ s) =
      (moreItems behindComma item state).run s := by
  induction gap with
  | nil => rfl
  | cons c gap ih =>
    rw [List.cons_append, moreItems_blank _ _ _ _ (blanks c List.mem_cons_self),
      ih fun d mem => blanks d (List.mem_cons_of_mem c mem)]

theorem moreMembers_blanks {gap : List Char} (blanks : Blanks gap) (behindComma : Reader Unit)
    (state : σ) (s : List Char) :
    (moreMembers behindComma nameRest member state).run (gap ++ s) =
      (moreMembers behindComma nameRest member state).run s := by
  induction gap with
  | nil => rfl
  | cons c gap ih =>
    have blank := blanks c List.mem_cons_self
    rw [← ih fun d mem => blanks d (List.mem_cons_of_mem c mem)]
    simp [moreMembers, memberStep, blank]

theorem MoreListed.moreItems_run (listed : MoreListed text items t)
    (reads : ∀ a ∈ items, ReadAs text item f a) (state : σ) (rest : List Char) :
    (moreItems (refuseClosing ']') item state).run (t ++ ']' :: rest) =
      (items.foldlM f state).map (·, rest) := by
  induction listed generalizing state with
  | nil blanks =>
    rw [moreItems_blanks blanks]
    exact moreItems_close _ _ _ _
  | @cons a items gap gap' u more blanks behind here listed ih =>
    obtain ⟨begins, run⟩ := reads a List.mem_cons_self u here
    have refused := refuseClosing_run behind (begins.append (more ++ ']' :: rest)) (.inl rfl)
    have later := ih fun b mem => reads b (List.mem_cons_of_mem a mem)
    simp only [List.append_assoc, List.cons_append]
    rw [moreItems_blanks blanks, moreItems_comma]
    simp only [run_bind, refused, run state _ (listed.ends (.inl rfl) rest), List.foldlM_cons]
    cases f state a with
    | error fault => rfl
    | ok state' => exact later state'

/-- Where no bracket closes, a list is its first item and the rest behind it. -/
theorem listRest_begins {gap s : List Char} (blanks : Blanks gap) (begins : BeginsValue s)
    (behindComma : Reader Unit) (state : σ) :
    (listRest behindComma item state).run (gap ++ s) =
      (item state >>= moreItems behindComma item).run s := by
  have front : (gap ++ s).dropWhile isBlank = s :=
    (blanks.dropWhile_append s).trans begins.dropWhile
  obtain ⟨c, t, rfl, _, close, _⟩ := begins
  rw [listRest, run_bind, run_blanks, front]
  simp only [run_bind, run_peek, List.head?_cons, if_neg close]

/-- **Items between brackets.** If the texts of each item are read as `f` says, a text of a list is
read as the fold of `f` over the items says, and the fault is the first that `f` reports. -/
theorem Listed.listRest_run (listed : Listed text items t)
    (reads : ∀ a ∈ items, ReadAs text item f a) (state : σ) (rest : List Char) :
    (listRest (refuseClosing ']') item state).run (t ++ ']' :: rest) =
      (items.foldlM f state).map (·, rest) := by
  cases listed with
  | nil blanks =>
    have front : (t ++ ']' :: rest).dropWhile isBlank = ']' :: rest :=
      (blanks.dropWhile_append _).trans rfl
    rw [listRest, run_bind, run_blanks, front]
    rfl
  | @cons a items gap u more blanks here listed =>
    obtain ⟨begins, run⟩ := reads a List.mem_cons_self u here
    have later := listed.moreItems_run fun b mem => reads b (List.mem_cons_of_mem a mem)
    simp only [List.append_assoc]
    rw [listRest_begins blanks (begins.append _), run_bind,
      run state _ (listed.ends (.inl rfl) rest), List.foldlM_cons]
    cases f state a with
    | error fault => rfl
    | ok state' => exact later state' rest

theorem MoreListed.moreMembers_run (listed : MoreListed text items t)
    (reads : ∀ a ∈ items, ReadAs text (fun state => memberName nameRest >>= member state) f a)
    (state : σ) (rest : List Char) :
    (moreMembers (refuseClosing '\x7d') nameRest member state).run (t ++ '\x7d' :: rest) =
      (items.foldlM f state).map (·, rest) := by
  induction listed generalizing state with
  | nil blanks =>
    rw [moreMembers_blanks blanks]
    exact moreMembers_close _ _ _ _ _
  | @cons a items gap gap' u more blanks behind here listed ih =>
    obtain ⟨begins, run⟩ := reads a List.mem_cons_self u here
    have refused := refuseClosing_run behind (begins.append (more ++ '\x7d' :: rest)) (.inr rfl)
    have later := ih fun b mem => reads b (List.mem_cons_of_mem a mem)
    simp only [List.append_assoc, List.cons_append]
    rw [moreMembers_blanks blanks, moreMembers_comma, bind_bind, run_bind, refused]
    simp only
    rw [run_bind, run state _ (listed.ends (.inr rfl) rest), List.foldlM_cons]
    cases f state a with
    | error fault => rfl
    | ok state' => exact later state'

/-- Where no bracket closes, an object is its first member and the rest behind it. -/
theorem objectRest_begins {gap s : List Char} (blanks : Blanks gap) (begins : BeginsValue s)
    (behindComma : Reader Unit) (state : σ) :
    (objectRest behindComma nameRest member state).run (gap ++ s) =
      (memberName nameRest >>= member state >>= moreMembers behindComma nameRest member).run s := by
  have front : (gap ++ s).dropWhile isBlank = s :=
    (blanks.dropWhile_append s).trans begins.dropWhile
  obtain ⟨c, t, rfl, _, _, close⟩ := begins
  rw [objectRest, run_bind, run_blanks, front, bind_bind]
  simp only [run_bind, run_peek, List.head?_cons, if_neg close]

/-- **Members between brackets.** If the texts of each member are read as `f` says, a text of an
object is read as the fold of `f` over the members says, and the fault is the first that `f`
reports. -/
theorem Listed.objectRest_run (listed : Listed text items t)
    (reads : ∀ a ∈ items, ReadAs text (fun state => memberName nameRest >>= member state) f a)
    (state : σ) (rest : List Char) :
    (objectRest (refuseClosing '\x7d') nameRest member state).run (t ++ '\x7d' :: rest) =
      (items.foldlM f state).map (·, rest) := by
  cases listed with
  | nil blanks =>
    have front : (t ++ '\x7d' :: rest).dropWhile isBlank = '\x7d' :: rest :=
      (blanks.dropWhile_append _).trans rfl
    rw [objectRest, run_bind, run_blanks, front]
    rfl
  | @cons a items gap u more blanks here listed =>
    obtain ⟨begins, run⟩ := reads a List.mem_cons_self u here
    have later := listed.moreMembers_run fun b mem => reads b (List.mem_cons_of_mem a mem)
    simp only [List.append_assoc]
    rw [objectRest_begins blanks (begins.append _), run_bind,
      run state _ (listed.ends (.inr rfl) rest), List.foldlM_cons]
    cases f state a with
    | error fault => rfl
    | ok state' => exact later state' rest

end Reading

/-! ## Taking lists -/

section Taking

variable {σ κ : Type} {item : σ → Reader σ} {nameRest : Reader κ} {member : σ → κ → Reader σ}
  {add : σ → α → σ} {behindComma : Reader Unit}

/-- The reader adds an item to what it is given, and takes a text of that item, maybe behind
blanks. -/
def TakesItem (text : α → List Char → Prop) (item : σ → Reader σ) (add : σ → α → σ) : Prop :=
  ∀ state, (item state).Takes fun state' t =>
    ∃ a gap u, state' = add state a ∧ t = gap ++ u ∧ Blanks gap ∧ text a u

/-- A text up to the closing bracket adds items that are listed in this way. -/
def Adds (listed : List α → List Char → Prop) (add : σ → α → σ) (close : Char) (state state' : σ)
    (t : List Char) : Prop :=
  ∃ items u, state' = items.foldl add state ∧ t = u ++ [close] ∧ listed items u

theorem Adds.blank {close c : Char} {state state' : σ} (blank : isBlank c)
    (more : Adds (MoreListed text) add close state state' t) :
    Adds (MoreListed text) add close state state' (c :: t) := by
  obtain ⟨items, u, added, rfl, listed⟩ := more
  have one : Blanks [c] := by simpa [Blanks] using blank
  exact ⟨items, c :: u, added, rfl, listed.blanks one⟩

/-- An item behind a comma, and more items behind it. -/
theorem Adds.comma {close : Char} {state state' : σ} {a : α} {gap gap' u : List Char}
    (behind : Blanks gap) (blanks : Blanks gap') (here : text a u)
    (more : Adds (MoreListed text) add close (add state a) state' t) :
    Adds (MoreListed text) add close state state' (',' :: (gap ++ (gap' ++ u) ++ t)) := by
  obtain ⟨items, v, added, rfl, listed⟩ := more
  refine ⟨a :: items, ',' :: ((gap ++ gap') ++ (u ++ v)), added, by simp, ?_⟩
  exact .cons Blanks.nil (behind.append blanks) here listed

/-- The step of a loop behind a comma: an item is added, and the loop goes on. -/
theorem commaStep_takes (close : Char) (state : σ) (item_takes : TakesItem text item add)
    (comma_takes : behindComma.Takes fun _ t => Blanks t) :
    (behindComma >>= fun _ => item state >>= fun state' =>
      (pure (.inr state') : Reader (σ ⊕ σ))).Takes fun outcome t =>
        outcome.elim (fun state' => Adds (MoreListed text) add close state state' (',' :: t))
          fun state' => ∀ after u, Adds (MoreListed text) add close state' after u →
            Adds (MoreListed text) add close state after (',' :: (t ++ u)) := by
  refine comma_takes.bind fun _ gap behind => (item_takes state).bind ?_
  rintro _ _ ⟨a, gap', u, rfl, rfl, blanks, here⟩
  refine Takes.pure fun after v more => ?_
  rw [List.append_nil]
  exact more.comma behind blanks here

theorem moreItems_takes (item_takes : TakesItem text item add)
    (comma_takes : behindComma.Takes fun _ t => Blanks t) (state : σ) :
    (moreItems behindComma item state).Takes (Adds (MoreListed text) add ']' state) := by
  refine Takes.loop (fun state c => ?_) state
  unfold itemStep
  split
  · rename_i blank
    exact Takes.pure fun after u more => more.blank blank
  split
  · rename_i close
    subst close
    exact Takes.pure ⟨[], [], rfl, rfl, .nil Blanks.nil⟩
  split
  · rename_i comma
    subst comma
    exact commaStep_takes ']' state item_takes comma_takes
  · exact Takes.fail _

theorem moreMembers_takes
    (member_takes : TakesItem text (fun state => memberName nameRest >>= member state) add)
    (comma_takes : behindComma.Takes fun _ t => Blanks t) (state : σ) :
    (moreMembers behindComma nameRest member state).Takes
      (Adds (MoreListed text) add '\x7d' state) := by
  refine Takes.loop (fun state c => ?_) state
  unfold memberStep
  split
  · rename_i blank
    exact Takes.pure fun after u more => more.blank blank
  split
  · rename_i close
    subst close
    exact Takes.pure ⟨[], [], rfl, rfl, .nil Blanks.nil⟩
  split
  · rename_i comma
    subst comma
    have step := commaStep_takes '\x7d' state member_takes comma_takes
    simp only [bind_bind] at step
    exact step
  · exact Takes.fail _

/-- The first item, and what is added behind it. -/
theorem takes_first {close : Char} {more : σ → Reader σ} (item_takes : TakesItem text item add)
    (more_takes : ∀ state, (more state).Takes (Adds (MoreListed text) add close state)) (state : σ)
    {gap : List Char} (before : Blanks gap) :
    (item state >>= more).Takes fun state' t =>
      Adds (Listed text) add close state state' (gap ++ t) := by
  refine (item_takes state).bind ?_
  rintro _ _ ⟨a, gap', u, rfl, rfl, blanks, here⟩
  refine (more_takes _).mono ?_
  rintro state' _ ⟨items, v, added, rfl, listed⟩
  refine ⟨a :: items, (gap ++ gap') ++ (u ++ v), added, by simp, ?_⟩
  exact .cons (before.append blanks) here listed

/-- **What is read from between brackets is a text of a list**: of the items that were added. -/
theorem listRest_takes (item_takes : TakesItem text item add)
    (comma_takes : behindComma.Takes fun _ t => Blanks t) (state : σ) :
    (listRest behindComma item state).Takes (Adds (Listed text) add ']' state) := by
  refine blanks_takes.bind fun _ gap blanks => ?_
  intro s state' rest run
  obtain ⟨c, middle, peeked, run⟩ := run_bind_eq_ok.mp run
  cases peeked
  cases s with
  | nil => cases run
  | cons c s =>
    by_cases close : c = ']'
    · subst close
      cases run
      exact ⟨[']'], rfl, [], gap, rfl, rfl, .nil blanks⟩
    · simp only [List.head?_cons, if_neg close] at run
      exact takes_first item_takes (moreItems_takes item_takes comma_takes) state blanks run

/-- **What is read from between brackets is a text of an object**: of the members that were
added. -/
theorem objectRest_takes
    (member_takes : TakesItem text (fun state => memberName nameRest >>= member state) add)
    (comma_takes : behindComma.Takes fun _ t => Blanks t) (state : σ) :
    (objectRest behindComma nameRest member state).Takes (Adds (Listed text) add '\x7d' state) := by
  refine blanks_takes.bind fun _ gap blanks => ?_
  intro s state' rest run
  obtain ⟨c, middle, peeked, run⟩ := run_bind_eq_ok.mp run
  cases peeked
  cases s with
  | nil => cases run
  | cons c s =>
    by_cases close : c = '\x7d'
    · subst close
      cases run
      exact ⟨['\x7d'], rfl, [], gap, rfl, rfl, .nil blanks⟩
    · simp only [List.head?_cons, if_neg close] at run
      rw [← bind_bind] at run
      exact takes_first member_takes (moreMembers_takes member_takes comma_takes) state blanks run

end Taking

/-! ## Lists as texts -/

/-- **The brackets of a list are nested as deeply as those of its items.** -/
theorem MoreListed.deepest {depth : α → Nat} (listed : MoreListed text items t)
    (each : ∀ a ∈ items, ∀ u, text a u → ∀ opened rest,
      deepest .outside opened (u ++ rest) =
        max (opened + depth a) (deepest .outside opened rest))
    (opened : Nat) (rest : List Char) :
    deepest .outside opened (t ++ rest) =
      max (opened + (items.map depth).foldr max 0) (deepest .outside opened rest) := by
  induction listed with
  | nil blanks => exact deepest_flat (blanks.deepest opened rest)
  | @cons a items gap gap' u more blanks behind here listed ih =>
    have comma : Json.deepest .outside opened (',' :: (gap' ++ (u ++ (more ++ rest)))) =
        Json.deepest .outside opened (gap' ++ (u ++ (more ++ rest))) := by
      simp [Json.deepest]
    simp only [List.append_assoc, List.cons_append, List.map_cons, List.foldr_cons]
    rw [blanks.deepest, comma, behind.deepest, each a List.mem_cons_self u here,
      ih fun b mem => each b (List.mem_cons_of_mem a mem)]
    omega

theorem Listed.deepest {depth : α → Nat} (listed : Listed text items t)
    (each : ∀ a ∈ items, ∀ u, text a u → ∀ opened rest,
      deepest .outside opened (u ++ rest) =
        max (opened + depth a) (deepest .outside opened rest))
    (opened : Nat) (rest : List Char) :
    deepest .outside opened (t ++ rest) =
      max (opened + (items.map depth).foldr max 0) (deepest .outside opened rest) := by
  cases listed with
  | nil blanks => exact deepest_flat (blanks.deepest opened rest)
  | @cons a items gap u more blanks here listed =>
    simp only [List.append_assoc, List.map_cons, List.foldr_cons]
    rw [blanks.deepest, each a List.mem_cons_self u here,
      listed.deepest fun b mem => each b (List.mem_cons_of_mem a mem)]
    omega

/-- Behind blanks, what is not blank begins at one place only. -/
theorem Blanks.append_inj {gap gap' s t : List Char} (blanks : Blanks gap) (blanks' : Blanks gap')
    (front : s.dropWhile isBlank = s) (front' : t.dropWhile isBlank = t)
    (same : gap ++ s = gap' ++ t) : s = t := by
  rw [← front, ← blanks.dropWhile_append s, same, blanks'.dropWhile_append t, front']

/-- In front of what cannot go on a numeral, a text of this item is a text of no other one, and
ends at one place only. -/
def OneText (text : α → List Char → Prop) (a : α) : Prop :=
  ∀ ⦃u b v rest rest'⦄, text a u → text b v → Numeral.Ends rest → Numeral.Ends rest' →
    u ++ rest = v ++ rest' → a = b ∧ rest = rest'

section Unique

variable {more : List α} {t' rest rest' : List Char} {close : Char}

theorem dropWhile_close (closes : close = ']' ∨ close = '\x7d') (s : List Char) :
    (close :: s).dropWhile isBlank = close :: s := by
  rcases closes with rfl | rfl <;> rfl

/-- No value begins with the closing bracket. -/
theorem BeginsValue.ne_close {u s t : List Char} (begins : BeginsValue u)
    (closes : close = ']' ∨ close = '\x7d') : close :: s ≠ u ++ t := by
  obtain ⟨c, v, rfl, _, list, object⟩ := begins
  intro same
  have front : close = c := (List.cons.inj same).1
  rcases closes with rfl | rfl
  · exact list front.symm
  · exact object front.symm

theorem MoreListed.unique (closes : close = ']' ∨ close = '\x7d')
    (begins : ∀ a u, text a u → BeginsValue u) (each : ∀ a ∈ items, OneText text a)
    (listed : MoreListed text items t) (listed' : MoreListed text more t')
    (same : t ++ close :: rest = t' ++ close :: rest') : items = more ∧ rest = rest' := by
  have solid := dropWhile_close closes
  have other : close ≠ ',' := by
    rcases closes with rfl | rfl <;> decide
  induction listed generalizing more t' with
  | nil blanks =>
    cases listed' with
    | nil blanks' =>
      have ended := blanks.append_inj blanks' (solid rest) (solid rest') same
      exact ⟨rfl, (List.cons.inj ended).2⟩
    | cons blanks' _ _ _ =>
      rw [List.append_assoc] at same
      have goes_on := blanks.append_inj blanks' (solid rest) rfl same
      exact absurd (List.cons.inj goes_on).1 other
  | @cons a items gap gap₁ u more₁ blanks behind here listed ih =>
    rw [List.append_assoc] at same
    cases listed' with
    | nil blanks' =>
      have goes_on := blanks.append_inj blanks' rfl (solid rest') same
      exact absurd (List.cons.inj goes_on).1 other.symm
    | @cons b items' gap' gap₂ v more₂ blanks' behind' here' listed' =>
      simp only [List.append_assoc, List.cons_append] at same
      have behindComma := (List.cons.inj (blanks.append_inj blanks' rfl rfl same)).2
      have values := behind.append_inj behind' ((begins a u here).append _).dropWhile
        ((begins b v here').append _).dropWhile behindComma
      obtain ⟨rfl, later⟩ := each a List.mem_cons_self here here' (listed.ends closes rest)
        (listed'.ends closes rest') values
      obtain ⟨rfl, rfl⟩ := ih (fun c mem => each c (List.mem_cons_of_mem a mem)) listed' later
      exact ⟨rfl, rfl⟩

/-- **Up to the closing bracket a text is a text of one list only**, if each item has its own
texts. -/
theorem Listed.unique (closes : close = ']' ∨ close = '\x7d')
    (begins : ∀ a u, text a u → BeginsValue u) (each : ∀ a ∈ items, OneText text a)
    (listed : Listed text items t) (listed' : Listed text more t')
    (same : t ++ close :: rest = t' ++ close :: rest') : items = more ∧ rest = rest' := by
  have solid := dropWhile_close closes
  cases listed with
  | nil blanks =>
    cases listed' with
    | nil blanks' =>
      have ended := blanks.append_inj blanks' (solid rest) (solid rest') same
      exact ⟨rfl, (List.cons.inj ended).2⟩
    | cons blanks' here' _ =>
      have begins' := begins _ _ here'
      simp only [List.append_assoc] at same
      have goes_on := blanks.append_inj blanks' (solid rest) (begins'.append _).dropWhile same
      exact absurd goes_on (begins'.ne_close closes)
  | @cons a items gap u more₁ blanks here listed =>
    have front := (begins a u here).append (more₁ ++ close :: rest)
    simp only [List.append_assoc] at same
    cases listed' with
    | nil blanks' =>
      have goes_on := blanks.append_inj blanks' front.dropWhile (solid rest') same
      exact absurd goes_on.symm ((begins a u here).ne_close closes)
    | @cons b items' gap' v more₂ blanks' here' listed' =>
      simp only [List.append_assoc] at same
      have values := blanks.append_inj blanks' front.dropWhile
        ((begins b v here').append _).dropWhile same
      obtain ⟨rfl, later⟩ := each a List.mem_cons_self here here' (listed.ends closes rest)
        (listed'.ends closes rest') values
      obtain ⟨rfl, rfl⟩ := listed.unique closes begins
        (fun c mem => each c (List.mem_cons_of_mem a mem)) listed' later
      exact ⟨rfl, rfl⟩

end Unique

end Json
end ShortForm
