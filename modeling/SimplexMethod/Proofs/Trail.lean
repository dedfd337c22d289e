import SimplexMethod.Proofs.Visited

/-!
# SimplexMethod.Proofs.Trail

**The visited states of a solve, one after another.** `Program.Visits` says which states are
visited, but not how to get hold of them all. A solve makes no choices, so each visited state has
at most one successor (`Program.nextVisit`), and the visited states are those met on the way from
the first one (`Visits.of_successors`).

`Program.trail` lists them as far as asked. Once the list comes to an end by itself, it holds all of
them (`visits_iff_mem_trail`), so that what is said of all visited states of a given program can be
decided by going through the list.
-/

namespace SimplexMethod

namespace Program

variable {K : Type} [Zero K] [One K] [Neg K] [Add K] [Sub K] [Mul K] [Div K] [LT K] [DecidableLT K]
  [LE K] [DecidableLE K] [BEq K] [Selectable K]

/-! ### Successors -/

/-- The state that a solve meets first. -/
def firstVisit (p : Program K) : Option (Stage × State K) :=
  match p.mismatch with
  | some _ => none
  | none =>
    let form := EqualityForm.ofProgram p
    if form.hasArtificials then
      (State.ofTableau form.artificialCosts form.tableau form.basis).toOption.map (Stage.search, ·)
    else
      (State.ofTableau p.extendedCosts form.tableau form.basis).toOption.map (Stage.second, ·)

/-- The state that a solve meets after a visited one, if it goes on from there. -/
def nextVisit (p : Program K) (settings : Settings K) :
    Stage × State K → Option (Stage × State K)
  | (.search, s) =>
    match s.verdict settings (Direction.sign .minimize) with
    | .exchange row col => (s.exchange row col).toOption.map (Stage.search, ·.count)
    | .stop .optimal =>
      if settings.tolerance < magnitude s.objectiveValue then none
      else some (.expulsion 0 s.tableau.rows, s)
    | .stop _ => none
  | (.expulsion _ 0, s) =>
    (State.ofTableau p.extendedCosts (p.handedOver s) s.basis).toOption.map (Stage.second, ·)
  | (.expulsion row (left + 1), s) =>
    (s.expelAt p.firstArtificial settings.tolerance row).toOption.map fun round =>
      (.expulsion round.1 left, round.2)
  | (.second, s) =>
    match s.verdict settings p.direction.sign with
    | .exchange row col => (s.exchange row col).toOption.map (Stage.second, ·.count)
    | .stop _ => none

variable {p : Program K} {settings : Settings K} {stage : Stage} {s : State K}

theorem toOption_map_eq_some {α β : Type} {x : Except Fault α} {f : α → β} {b : β} :
    x.toOption.map f = some b ↔ ∃ a, x = .ok a ∧ f a = b := by
  cases x with
  | error e => simp [Except.toOption]
  | ok a => simp [Except.toOption]

theorem Visits.of_firstVisit {x : Stage × State K} (h : p.firstVisit = some x) :
    p.Visits settings x.1 x.2 := by
  unfold firstVisit at h
  split at h
  · cases h
  · next hfit =>
    dsimp only at h
    split at h
    · next hartificials =>
      obtain ⟨s, hs, rfl⟩ := toOption_map_eq_some.1 h
      exact .searchStart hfit hartificials hs
    · next hartificials =>
      obtain ⟨s, hs, rfl⟩ := toOption_map_eq_some.1 h
      exact .directStart hfit (Bool.eq_false_iff.2 hartificials) hs

theorem Visits.of_nextVisit {x y : Stage × State K} (hx : p.Visits settings x.1 x.2)
    (h : p.nextVisit settings x = some y) : p.Visits settings y.1 y.2 := by
  obtain ⟨stage, s⟩ := x
  cases stage with
  | search =>
      simp only [nextVisit] at h
      split at h
      · next hverdict =>
        obtain ⟨t, ht, rfl⟩ := toOption_map_eq_some.1 h
        exact hx.searchStep (.exchange hverdict ht)
      · next hverdict =>
        split at h
        · cases h
        · next hsum =>
          cases h
          exact hx.expulsionStart hverdict hsum
      · cases h
  | expulsion row left =>
      cases left with
      | zero =>
          obtain ⟨t, ht, rfl⟩ := toOption_map_eq_some.1 h
          exact hx.handover ht
      | succ left =>
          obtain ⟨round, hround, rfl⟩ := toOption_map_eq_some.1 h
          exact hx.expulsionStep hround
  | second =>
      simp only [nextVisit] at h
      split at h
      · next hverdict =>
        obtain ⟨t, ht, rfl⟩ := toOption_map_eq_some.1 h
        exact hx.secondStep (.exchange hverdict ht)
      · cases h

/-- **The visited states follow one another**: what is true of the first one and goes over from each
one to its successor is true of all. -/
theorem Visits.of_successors {motive : Stage × State K → Prop}
    (hfirst : ∀ x, p.firstVisit = some x → motive x)
    (hnext : ∀ x y, motive x → p.nextVisit settings x = some y → motive y)
    (h : p.Visits settings stage s) : motive (stage, s) := by
  induction h with
  | searchStart hfit hartificials hs =>
      refine hfirst _ ?_
      simp only [firstVisit, hfit, hartificials, if_true]
      exact toOption_map_eq_some.2 ⟨_, hs, rfl⟩
  | searchStep _ hstep ih =>
      cases hstep with
      | exchange hverdict ht =>
          refine hnext _ _ ih ?_
          simp only [nextVisit, hverdict]
          exact toOption_map_eq_some.2 ⟨_, ht, rfl⟩
  | expulsionStart _ hverdict hsum ih =>
      refine hnext _ _ ih ?_
      simp only [nextVisit, hverdict, if_neg hsum]
  | expulsionStep _ hround ih =>
      exact hnext _ _ ih (toOption_map_eq_some.2 ⟨_, hround, rfl⟩)
  | handover _ hs ih => exact hnext _ _ ih (toOption_map_eq_some.2 ⟨_, hs, rfl⟩)
  | directStart hfit hartificials hs =>
      refine hfirst _ ?_
      simp only [firstVisit, hfit, hartificials]
      exact toOption_map_eq_some.2 ⟨_, hs, rfl⟩
  | secondStep _ hstep ih =>
      cases hstep with
      | exchange hverdict ht =>
          refine hnext _ _ ih ?_
          simp only [nextVisit, hverdict]
          exact toOption_map_eq_some.2 ⟨_, ht, rfl⟩

/-! ### The list of visited states -/

/-- At most `n` states that a solve goes on to meet, the given one first. -/
def follow (p : Program K) (settings : Settings K) :
    Nat → Option (Stage × State K) → List (Stage × State K)
  | 0, _ => []
  | _ + 1, none => []
  | n + 1, some x => x :: p.follow settings n (p.nextVisit settings x)

/-- The first `n` states that a solve meets. -/
def trail (p : Program K) (settings : Settings K) (n : Nat) : List (Stage × State K) :=
  p.follow settings n p.firstVisit

theorem visits_of_mem_follow {n : Nat} {start : Option (Stage × State K)}
    (hstart : ∀ x, start = some x → p.Visits settings x.1 x.2) {x : Stage × State K}
    (hx : x ∈ p.follow settings n start) : p.Visits settings x.1 x.2 := by
  induction n generalizing start with
  | zero => cases hx
  | succ n ih =>
      cases start with
      | none => cases hx
      | some y =>
          have hy := hstart y rfl
          rcases List.mem_cons.1 hx with rfl | hx
          · exact hy
          · exact ih (fun z hz => hy.of_nextVisit hz) hx

/-- A list that was not cut off at once begins with the given state. -/
theorem mem_follow_self {n : Nat} {x : Stage × State K}
    (hlength : (p.follow settings n (some x)).length < n) :
    x ∈ p.follow settings n (some x) := by
  cases n with
  | zero => cases hlength
  | succ n => exact List.mem_cons_self

/-- A list that was not cut off has the successor of every state in it. -/
theorem mem_follow_of_nextVisit {n : Nat} {start : Option (Stage × State K)}
    (hlength : (p.follow settings n start).length < n) {x y : Stage × State K}
    (hx : x ∈ p.follow settings n start) (hnext : p.nextVisit settings x = some y) :
    y ∈ p.follow settings n start := by
  induction n generalizing start with
  | zero => cases hx
  | succ n ih =>
      cases start with
      | none => cases hx
      | some z =>
          have hlength' : (p.follow settings n (p.nextVisit settings z)).length < n :=
            Nat.lt_of_succ_lt_succ hlength
          refine List.mem_cons_of_mem z ?_
          rcases List.mem_cons.1 hx with rfl | hx
          · rw [hnext] at hlength' ⊢
            exact mem_follow_self hlength'
          · exact ih hlength' hx

/-- **A list that was not cut off has all visited states.** -/
theorem visits_iff_mem_trail {n : Nat} (hlength : (p.trail settings n).length < n) :
    p.Visits settings stage s ↔ (stage, s) ∈ p.trail settings n := by
  constructor
  · intro h
    refine h.of_successors (fun x hx => ?_) fun x y hx hnext => ?_
    · unfold trail at hlength ⊢
      rw [hx] at hlength ⊢
      exact mem_follow_self hlength
    · exact mem_follow_of_nextVisit hlength hx hnext
  · exact visits_of_mem_follow fun x => Visits.of_firstVisit

end Program

end SimplexMethod
