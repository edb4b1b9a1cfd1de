import ShortForm.Proofs.Json.Spelled

/-!
# Texts that are cut short

What a reader makes of a text of which some of the end is missing. Mostly it says that the text ends
too early. But of a number that is cut the front may be a number as well, and then it is read to its
end: only what stands behind could tell that something is missing. So a text that is cut short
either ends too early or gives something that could have gone on (`Reader.RunsOut`).

A reader settles a text if it comes to one outcome over it wherever it stands, and the text runs out
whatever is cut off its end (`Reader.Settles`). That can be put together from the parts of a text in
the order in which they are read (`Settles.bind`). What could go on does so with characters of
numerals only, and every part of a JSON text that stands behind a value begins with another one; so
in the end nothing is left that could go on. Where the outcome is a fault, nothing is said of the
text cut short.
-/

namespace ShortForm

open Reader

/-! ## Ends of numerals -/

namespace Numeral

variable {s t : List Char}

/-- A text begins with what a front of it begins with. -/
theorem mem_head?_of_front {c : Char} (front : s <+: t) (mem : c ∈ s.head?) : c ∈ t.head? :=
  List.singleton_prefix_iff_head?_eq_some.mp
    ((List.singleton_prefix_iff_head?_eq_some.mpr mem).trans front)

theorem Ends.front (ends : Ends t) (front : s <+: t) : Ends s :=
  fun c mem => ends c (mem_head?_of_front front mem)

theorem Ends.append (ends : Ends s) (nonempty : s ≠ []) (rest : List Char) : Ends (s ++ rest) := by
  cases s with
  | nil => exact absurd rfl nonempty
  | cons c s => exact ends_cons (ends c rfl)

end Numeral

namespace Reader

variable {α β : Type} {goesOn : α → Prop} {goesOn' : β → Prop} {p q : Reader α} {f : α → Reader β}
  {s t u : List Char}

/-! ## Running out -/

/-- A text that is cut short ends too early, or is read to its end and gives what could go on. -/
inductive RunsOut (goesOn : α → Prop) : Except Fault (α × List Char) → Prop where
  | early {fault : Fault} : fault.kind = .ending → RunsOut goesOn (.error fault)
  | whole {a : α} : goesOn a → RunsOut goesOn (.ok (a, []))

/-- Where nothing could go on, a text that runs out ends too early. -/
theorem RunsOut.ending {outcome : Except Fault (α × List Char)}
    (runsOut : RunsOut (fun _ => False) outcome) :
    ∃ fault, outcome = .error fault ∧ fault.kind = .ending := by
  cases runsOut with
  | early ending => exact ⟨_, rfl, ending⟩
  | whole goes => exact goes.elim

theorem RunsOut.bind (runsOut : RunsOut goesOn (p.run s))
    (each : ∀ a, goesOn a → RunsOut goesOn' ((f a).run [])) :
    RunsOut goesOn' ((p >>= f).run s) := by
  rw [run_bind]
  generalize p.run s = outcome at runsOut
  cases runsOut with
  | early ending => exact .early ending
  | whole goes => exact each _ goes

/-- Whatever is cut off its end, the text runs out. -/
def CutShort (p : Reader α) (goesOn : α → Prop) (t : List Char) : Prop :=
  ∀ front back, t = front ++ back → back ≠ [] → RunsOut goesOn (p.run front)

namespace CutShort

theorem nil : p.CutShort goesOn [] := by
  intro front back eq nonempty
  exact absurd (List.append_eq_nil_iff.mp eq.symm).2 nonempty

/-- The cut is in the first part or behind it. -/
theorem append_cases {P : List Char → Prop} (inFirst : ∀ front back, t = front ++ back →
      back ≠ [] → P front) (inSecond : ∀ front back, u = front ++ back → back ≠ [] → P (t ++ front))
    (front back : List Char) (eq : t ++ u = front ++ back) (nonempty : back ≠ []) : P front := by
  rcases List.append_eq_append_iff.mp eq with ⟨more, rfl, rest⟩ | ⟨missing, first, rfl⟩
  · exact inSecond more back rest nonempty
  · rcases List.eq_nil_or_concat missing with rfl | ⟨_, _, some⟩
    · rw [List.append_nil] at first
      rw [← first, ← List.append_nil t]
      exact inSecond [] u rfl nonempty
    · exact inFirst front missing first (by simp [some])

/-- Behind the first part another reader goes on. -/
theorem append (first : p.CutShort goesOn t) (behind : ∀ s, p.run (t ++ s) = q.run s)
    (more : q.CutShort goesOn u) : p.CutShort goesOn (t ++ u) := by
  refine append_cases first fun front back eq nonempty => ?_
  rw [behind]
  exact more front back eq nonempty

/-- Behind the first character another reader goes on. -/
theorem cons {c : Char} (early : RunsOut goesOn (p.run []))
    (behind : ∀ s, p.run (c :: s) = q.run s) (more : q.CutShort goesOn u) :
    p.CutShort goesOn (c :: u) := by
  intro front back eq nonempty
  cases front with
  | nil => exact early
  | cons d front =>
    obtain ⟨rfl, rest⟩ := List.cons.inj eq
    rw [behind]
    exact more front back rest nonempty

/-- The first character says which reader goes on from there. -/
theorem begins {c : Char} (early : RunsOut goesOn (p.run []))
    (same : ∀ s, p.run (c :: s) = q.run (c :: s)) (cut : q.CutShort goesOn (c :: u)) :
    p.CutShort goesOn (c :: u) := by
  intro front back eq nonempty
  cases front with
  | nil => exact early
  | cons d front =>
    obtain ⟨rfl, _⟩ := List.cons.inj eq
    rw [same]
    exact cut _ back eq nonempty

/-- One part of the text is read after the other. -/
theorem bind {a : α} (first : p.CutShort goesOn t)
    (whole : ∀ front, front <+: u → p.run (t ++ front) = .ok (a, front))
    (each : ∀ b, goesOn b → RunsOut goesOn' ((f b).run [])) (more : (f a).CutShort goesOn' u) :
    (p >>= f).CutShort goesOn' (t ++ u) := by
  refine append_cases (fun front back eq nonempty => (first front back eq nonempty).bind each)
    fun front back eq nonempty => ?_
  rw [run_bind, whole front ⟨back, eq.symm⟩]
  exact more front back eq nonempty

/-- What could go on is made into what could go on, without reading on. -/
theorem finish (cut : p.CutShort goesOn t)
    (each : ∀ a, goesOn a → RunsOut goesOn' ((f a).run [])) : (p >>= f).CutShort goesOn' t :=
  fun front back eq nonempty => (cut front back eq nonempty).bind each

end CutShort

/-! ## Settled texts -/

/-- The reader comes to one outcome over the text wherever it stands, and if it succeeds, the text
runs out whatever is cut off its end. If anything could go on, that holds where numerals end. -/
structure Settles (p : Reader α) (goesOn : α → Prop) (t : List Char)
    (outcome : Except Fault α) : Prop where
  run : ∀ rest, (∀ a, goesOn a → Numeral.Ends rest) → p.run (t ++ rest) = outcome.map (·, rest)
  cut : ∀ a, outcome = .ok a → p.CutShort goesOn t

/-- There is such an outcome. -/
def Settled (p : Reader α) (goesOn : α → Prop) (t : List Char) : Prop :=
  ∃ outcome, p.Settles goesOn t outcome

namespace Settles

variable {outcome : Except Fault α} {outcome' : Except Fault β} {fault : Fault}

theorem pure (a : α) : (Pure.pure a : Reader α).Settles goesOn [] (.ok a) :=
  ⟨fun _ _ => rfl, fun _ _ => .nil⟩

/-- Of a fault that the reader comes to over the whole text, nothing more is to be said. -/
theorem error (run : ∀ rest, (∀ a, goesOn a → Numeral.Ends rest) →
    p.run (t ++ rest) = .error fault) : p.Settles goesOn t (.error fault) :=
  ⟨run, nofun⟩

theorem append (first : p.CutShort goesOn t) (behind : ∀ s, p.run (t ++ s) = q.run s)
    (more : q.Settles goesOn u outcome) : p.Settles goesOn (t ++ u) outcome where
  run rest ends := by rw [List.append_assoc, behind, more.run rest ends]
  cut a ok := first.append behind (more.cut a ok)

theorem cons {c : Char} (early : RunsOut goesOn (p.run []))
    (behind : ∀ s, p.run (c :: s) = q.run s) (more : q.Settles goesOn u outcome) :
    p.Settles goesOn (c :: u) outcome where
  run rest ends := by rw [List.cons_append, behind, more.run rest ends]
  cut a ok := .cons early behind (more.cut a ok)

theorem begins {c : Char} (early : RunsOut goesOn (p.run []))
    (same : ∀ s, p.run (c :: s) = q.run (c :: s)) (settles : q.Settles goesOn (c :: u) outcome) :
    p.Settles goesOn (c :: u) outcome where
  run rest ends := by
    rw [List.cons_append, same]
    exact settles.run rest ends
  cut a ok := .begins early same (settles.cut a ok)

/-- One part of the text is read after the other. If the first could go on, the second part begins
with what ends a numeral, and where it is missing the text runs out. -/
theorem bind {a : α} (first : p.Settles goesOn t (.ok a))
    (between : ∀ b, goesOn b → u ≠ [] ∧ Numeral.Ends u ∧ RunsOut goesOn' ((f b).run []))
    (more : (f a).Settles goesOn' u outcome') : (p >>= f).Settles goesOn' (t ++ u) outcome' where
  run rest ends := by
    rw [List.append_assoc, run_bind, first.run (u ++ rest) fun b goes =>
      (between b goes).2.1.append (between b goes).1 rest]
    exact more.run rest ends
  cut b ok := (first.cut a rfl).bind
    (fun front isFront => first.run front fun b goes => (between b goes).2.1.front isFront)
    (fun b goes => (between b goes).2.2) (more.cut b ok)

end Settles

namespace Settled

theorem fail (fault : Fault) (t : List Char) : (Reader.fail fault : Reader α).Settled goesOn t :=
  ⟨.error fault, .error fun _ _ => rfl⟩

theorem cons {c : Char} (early : RunsOut goesOn (p.run []))
    (behind : ∀ s, p.run (c :: s) = q.run s) (more : q.Settled goesOn u) :
    p.Settled goesOn (c :: u) := by
  obtain ⟨outcome, settles⟩ := more
  exact ⟨outcome, .cons early behind settles⟩

theorem begins {c : Char} (early : RunsOut goesOn (p.run []))
    (same : ∀ s, p.run (c :: s) = q.run (c :: s)) (settled : q.Settled goesOn (c :: u)) :
    p.Settled goesOn (c :: u) := by
  obtain ⟨outcome, settles⟩ := settled
  exact ⟨outcome, .begins early same settles⟩

/-- One part of the text is read after the other; where the first part is a fault, so is the
whole. -/
theorem bind (first : p.Settled goesOn t)
    (between : ∀ b, goesOn b → u ≠ [] ∧ Numeral.Ends u ∧ RunsOut goesOn' ((f b).run []))
    (more : ∀ a, (f a).Settled goesOn' u) : (p >>= f).Settled goesOn' (t ++ u) := by
  obtain ⟨outcome, settles⟩ := first
  cases outcome with
  | error fault =>
    refine ⟨.error fault, .error fun rest _ => ?_⟩
    rw [List.append_assoc, run_bind, settles.run (u ++ rest) fun b goes =>
      (between b goes).2.1.append (between b goes).1 rest]
    rfl
  | ok a =>
    obtain ⟨outcome', settles'⟩ := more a
    exact ⟨outcome', settles.bind between settles'⟩

/-- What is read is made into something else, or is a fault, without reading on. What could go on is
made into what could go on. -/
theorem finish (settled : p.Settled goesOn t)
    (each : ∀ a, (∃ b, f a = Pure.pure b) ∨ ∃ fault, f a = Reader.fail fault)
    (goes : ∀ a, goesOn a → ∃ b, f a = Pure.pure b ∧ goesOn' b) : (p >>= f).Settled goesOn' t := by
  obtain ⟨outcome, settles⟩ := settled
  have run (rest) (ends : ∀ b, goesOn' b → Numeral.Ends rest) :=
    settles.run rest fun a on => by
      obtain ⟨b, _, on⟩ := goes a on
      exact ends b on
  cases outcome with
  | error fault =>
    refine ⟨.error fault, .error fun rest ends => ?_⟩
    rw [run_bind, run rest ends]
    rfl
  | ok a =>
    have made := each a
    rcases made with ⟨b, made⟩ | ⟨fault, made⟩
    · refine ⟨.ok b, fun rest ends => ?_, fun c ok => (settles.cut a rfl).finish fun a on => ?_⟩
      · rw [run_bind, run rest ends]
        simp only [Except.map, made, run_pure]
      · obtain ⟨b, made, on⟩ := goes a on
        rw [made]
        exact .whole on
    · refine ⟨.error fault, .error fun rest ends => ?_⟩
      rw [run_bind, run rest ends]
      simp only [Except.map, made, run_fail]

/-- What is read is made into something else. -/
theorem map (settled : p.Settled goesOn t) (g : α → β) (goes : ∀ a, goesOn a → goesOn' (g a)) :
    (p >>= fun a => Pure.pure (g a)).Settled goesOn' t :=
  settled.finish (fun a => .inl ⟨g a, rfl⟩) fun a on => ⟨g a, rfl, goes a on⟩

end Settled
end Reader

namespace Json

/-! ## Blanks -/

section

variable {α : Type} {goesOn : α → Prop} {p q : Reader α} {gap t u : List Char}

/-- The reader drops the blanks in front. -/
def DropsBlanks (p : Reader α) : Prop := ∀ gap s, Blanks gap → p.run (gap ++ s) = p.run s

/-- Blanks are cut short where there is nothing behind them. -/
theorem DropsBlanks.cutShort (drops : DropsBlanks p) (early : RunsOut goesOn (p.run []))
    (blanks : Blanks gap) : p.CutShort goesOn gap := by
  rintro front back rfl _
  have front_run := drops front [] fun c mem => blanks c (List.mem_append_left back mem)
  rw [List.append_nil] at front_run
  rwa [front_run]

theorem DropsBlanks.settled (drops : DropsBlanks p) (early : RunsOut goesOn (p.run []))
    (blanks : Blanks gap) (settled : p.Settled goesOn t) : p.Settled goesOn (gap ++ t) := by
  obtain ⟨outcome, settles⟩ := settled
  exact ⟨outcome, .append (drops.cutShort early blanks) (fun s => drops gap s blanks) settles⟩

theorem DropsBlanks.bind {β : Type} (drops : DropsBlanks p) (f : α → Reader β) :
    DropsBlanks (p >>= f) := by
  intro gap s blanks
  rw [run_bind, run_bind, drops gap s blanks]

theorem dropsBlanks_of_blanks (f : Unit → Reader α) : DropsBlanks (Reader.blanks >>= f) := by
  intro gap s blanks
  rw [run_bind, run_bind, run_blanks, run_blanks, blanks.dropWhile_append]

/-- Behind blanks and a colon the reader goes on. -/
theorem settled_colon (blanks : Blanks gap) (settled : q.Settled goesOn t) :
    (colon >>= fun _ => q).Settled goesOn (gap ++ ':' :: t) := by
  refine DropsBlanks.settled ?_ (.early rfl) blanks (.cons (.early rfl) (fun s => ?_) settled)
  · rw [colon, bind_bind]
    exact dropsBlanks_of_blanks _
  · rw [run_bind, colon_run]

/-- Behind a comma the reader goes on where a value begins. -/
theorem settled_refuseClosing {close : Char} (closes : close = ']' ∨ close = '\x7d')
    (blanks : Blanks gap) (begins : BeginsValue t) (settled : q.Settled goesOn t) :
    (refuseClosing close >>= fun _ => q).Settled goesOn (gap ++ t) := by
  refine DropsBlanks.settled ?_ (.early rfl) blanks ?_
  · rw [refuseClosing, bind_bind]
    exact dropsBlanks_of_blanks _
  · obtain ⟨c, t, rfl, solid⟩ := begins
    refine .begins (.early rfl) (fun s => ?_) settled
    have refused := refuseClosing_run Blanks.nil ⟨c, s, rfl, solid⟩ closes
    rw [List.nil_append] at refused
    rw [run_bind, refused]

end

/-! ## Brackets -/

section

variable {σ : Type}

/-- Readers of what stands between brackets: one from the opening bracket on, one from behind an
item on, and one of an item. -/
structure ReadsBracketed (first more item : σ → Reader σ) (close : Char) : Prop where
  closes : close = ']' ∨ close = '\x7d'
  first_early : ∀ state, RunsOut (fun _ => False) ((first state).run [])
  first_blanks : ∀ state, DropsBlanks (first state)
  first_close : ∀ state s, (first state).run (close :: s) = .ok (state, s)
  first_begins : ∀ state s, BeginsValue s → (first state).run s = (item state >>= more).run s
  more_early : ∀ state, RunsOut (fun _ => False) ((more state).run [])
  more_blanks : ∀ state, DropsBlanks (more state)
  more_close : ∀ state s, (more state).run (close :: s) = .ok (state, s)
  more_comma : ∀ state s, (more state).run (',' :: s) =
    (refuseClosing close >>= fun _ => item state >>= more).run s

theorem readsBracketed_list (item : σ → Reader σ) :
    ReadsBracketed (listRest (refuseClosing ']') item) (moreItems (refuseClosing ']') item) item
      ']' where
  closes := .inl rfl
  first_early state := .early rfl
  first_blanks state := dropsBlanks_of_blanks _
  first_close state s := rfl
  first_begins state s begins := by
    simpa using listRest_begins Blanks.nil begins (refuseClosing ']') state
  more_early state := by
    rw [moreItems_nil]
    exact .early rfl
  more_blanks state gap s blanks := moreItems_blanks blanks _ state s
  more_close state s := moreItems_close _ _ state s
  more_comma state s := by rw [moreItems_comma, bind_bind]

theorem readsBracketed_object {κ : Type} (nameRest : Reader κ) (member : σ → κ → Reader σ) :
    ReadsBracketed (objectRest (refuseClosing '\x7d') nameRest member)
      (moreMembers (refuseClosing '\x7d') nameRest member)
      (fun state => memberName nameRest >>= member state) '\x7d' where
  closes := .inr rfl
  first_early state := .early rfl
  first_blanks state := dropsBlanks_of_blanks _
  first_close state s := rfl
  first_begins state s begins := by
    simpa using objectRest_begins Blanks.nil begins (refuseClosing '\x7d') state
  more_early state := by
    rw [moreMembers, run_loop_nil]
    exact .early rfl
  more_blanks state gap s blanks := moreMembers_blanks blanks _ state s
  more_close state s := moreMembers_close _ _ _ state s
  more_comma state s := by rw [moreMembers_comma, bind_bind]

/-- A text of an item is settled, whatever was read before, but it may go on. -/
def SettledItem {α : Type} (text : α → List Char → Prop) (item : σ → Reader σ) (a : α) : Prop :=
  ∀ u, text a u → BeginsValue u ∧ ∀ state, (item state).Settled (fun _ => True) u

variable {α : Type} {text : α → List Char → Prop} {items : List α} {t : List Char}
  {first more item : σ → Reader σ} {close : Char}

/-- An item and what is behind it up to the bracket. -/
theorem ReadsBracketed.item_settled (reads : ReadsBracketed first more item close) {u : List Char}
    {state : σ} (here : (item state).Settled (fun _ => True) u)
    (listed : MoreListed text items t)
    (behind : ∀ state, (more state).Settled (fun _ => False) (t ++ [close])) :
    (item state >>= more).Settled (fun _ => False) (u ++ (t ++ [close])) :=
  here.bind (fun state' _ => ⟨by simp, listed.ends reads.closes [], reads.more_early state'⟩) behind

/-- A closing bracket ends what the reader reads. -/
theorem settled_close {p : Reader σ} {state : σ} (early : RunsOut (fun _ => False) (p.run []))
    (run : ∀ s, p.run (close :: s) = .ok (state, s)) : p.Settled (fun _ => False) [close] :=
  .cons early run ⟨_, .pure state⟩

theorem MoreListed.settled (listed : MoreListed text items t)
    (reads : ReadsBracketed first more item close) (each : ∀ a ∈ items, SettledItem text item a)
    (state : σ) : (more state).Settled (fun _ => False) (t ++ [close]) := by
  induction listed generalizing state with
  | nil blanks =>
    exact (reads.more_blanks state).settled (reads.more_early state) blanks
      (settled_close (reads.more_early state) (reads.more_close state))
  | @cons a items gap gap' u t blanks behind here listed ih =>
    obtain ⟨begins, settled⟩ := each a List.mem_cons_self u here
    have rest := reads.item_settled (settled state) listed
      (ih fun b mem => each b (List.mem_cons_of_mem a mem))
    have afterComma := settled_refuseClosing reads.closes behind (begins.append _) rest
    simp only [List.append_assoc, List.cons_append]
    exact (reads.more_blanks state).settled (reads.more_early state) blanks
      (.cons (reads.more_early state) (reads.more_comma state) afterComma)

/-- **What stands between brackets is settled** up to the closing bracket, if each item is. -/
theorem Listed.settled (listed : Listed text items t)
    (reads : ReadsBracketed first more item close) (each : ∀ a ∈ items, SettledItem text item a)
    (state : σ) : (first state).Settled (fun _ => False) (t ++ [close]) := by
  cases listed with
  | nil blanks =>
    exact (reads.first_blanks state).settled (reads.first_early state) blanks
      (settled_close (reads.first_early state) (reads.first_close state))
  | @cons a items gap u t blanks here listed =>
    obtain ⟨begins, settled⟩ := each a List.mem_cons_self u here
    have rest := reads.item_settled (settled state) listed
      (listed.settled reads fun b mem => each b (List.mem_cons_of_mem a mem))
    obtain ⟨c, u, rfl, solid⟩ := begins
    simp only [List.append_assoc, List.cons_append] at rest ⊢
    exact (reads.first_blanks state).settled (reads.first_early state) blanks
      (.begins (reads.first_early state)
        (fun s => reads.first_begins state _ ⟨c, s, rfl, solid⟩) rest)

end

end Json
end ShortForm
