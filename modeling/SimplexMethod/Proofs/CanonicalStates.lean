import SimplexMethod.Proofs.Search
import SimplexMethod.Proofs.Visited

/-!
# SimplexMethod.Proofs.CanonicalStates

**Every state of a solve has a canonical basis.** No sign of a right-hand side is used and no
tolerance but a negative one is excluded, so this holds for constraints stored as they are
(`Program.push`) and for rows that a tolerance has spoiled.

`Program.Tracks` is what is carried along `Program.Visits`, stage by stage. The stage in between
the two passes is the one with something to say (`State.Emptied`): the rows looked at already have
lost their artificial columns, so that none is left in the basis when the artificial columns are
dropped.

From a canonical basis it follows that the entering column is never basic
(`Tracks.not_mem_basis`) and that a repair never has anything to do (`isBasis_of_repairs`).

`Program.PricedAt` is about a solve that writes reduced costs down when a state is made and does not
compute them again between two rounds of the expulsion. On basic columns they are zero there too
(`PricedAt.reducedCost`).
-/

namespace SimplexMethod

/-! ### Canonical bases -/

namespace Tableau.IsBasis

variable {t : Tableau ℚ} {basis : List Nat}

theorem exists_of_mem (h : t.IsBasis basis) {b : Nat} (hb : b ∈ basis) :
    ∃ i < t.rows, basis.getD i 0 = b := by
  obtain ⟨i, hi, rfl⟩ := List.getElem_of_mem hb
  exact ⟨i, h.length ▸ hi, List.getD_eq_getElem _ _ hi⟩

/-- The recorded columns are what the repair of a basis looks for. -/
theorem isUnitAt (h : t.IsBasis basis) {i : Nat} (hi : i < t.rows) :
    t.isUnitAt i (basis.getD i 0) 1 = true :=
  isUnitAt_iff.2 ⟨by rw [h.unit i hi i hi, if_pos rfl],
    fun k hk hki => by rw [h.unit i hi k hk, if_neg hki]⟩

/-- A right-hand side is no basic column, so it may be changed. -/
theorem setRhs (h : t.IsBasis basis) (r : Nat) (x : ℚ) :
    (t.set r (t.cols - 1) x).IsBasis basis where
  length := h.length
  lt := h.lt
  unit := by
    intro i hi k hk
    have hlt := h.lt i hi
    rw [entry_set t r (t.cols - 1) x hk (by omega), if_neg (by omega)]
    exact h.unit i hi k hk

end Tableau.IsBasis

namespace State

variable {s : State ℚ} {tolerance : ℚ}

/-- A state made from a canonical basis is what it was made from. -/
theorem of_ofTableau {objective : List ℚ} {tableau : Tableau ℚ} {basis : List Nat}
    (hbasis : tableau.IsBasis basis) (h : ofTableau objective tableau basis = .ok s) :
    s.objective = objective ∧ s.tableau = tableau ∧ s.basis = basis ∧ s.Canonical := by
  obtain ⟨hobjective, hrepair, -⟩ := ofTableau_eq_ok h
  rw [hbasis.repair_eq] at hrepair
  obtain ⟨htableau, hset⟩ := Prod.mk.inj hrepair
  refine ⟨hobjective, htableau, hset, ?_⟩
  rw [Canonical, htableau, hset]
  exact hbasis

theorem Canonical.reducedCost_of_mem (h : s.Canonical) {b : Nat} (hb : b ∈ s.basis) :
    s.reducedCost b = 0 := by
  obtain ⟨i, hi, rfl⟩ := h.exists_of_mem hb
  exact h.reducedCost_basic hi

/-- **An entering column is not basic**, since a basic column has no reduced cost. -/
theorem Canonical.not_mem_basis_of_price (h : s.Canonical) (htol : 0 ≤ tolerance) {sign : ℚ}
    {col : Nat} (hprice : s.price sign tolerance = some col) : col ∉ s.basis := by
  intro hmem
  have himproves := (price_eq_some hprice).2
  rw [h.reducedCost_of_mem hmem, mul_zero] at himproves
  linarith

/-! ### Expelling artificial variables -/

/-- The rows before `i` have no artificial column in the basis any more. Columns from `first` on are
the artificial ones. -/
structure Emptied (first i : Nat) (s : State ℚ) : Prop where
  canonical : s.Canonical
  first_le : first ≤ s.objective.length
  done : ∀ k < i, s.basis.getD k 0 < first

namespace Emptied

variable {first i : Nat}

theorem keep (h : Emptied first i s) (hbasic : s.basis.getD i 0 < first) :
    Emptied first (i + 1) s := by
  refine ⟨h.canonical, h.first_le, fun k hk => ?_⟩
  rcases Nat.lt_succ_iff_lt_or_eq.1 hk with hlt | rfl
  · exact h.done k hlt
  · exact hbasic

theorem exchange (h : Emptied first i s) (hi : i < s.tableau.rows) {j : Nat} (hj : j < first)
    {t : State ℚ} (hexchanged : s.Exchanged i j t) (hcanonical : t.Canonical) :
    Emptied first (i + 1) t := by
  refine ⟨hcanonical, hexchanged.objective ▸ h.first_le, fun k hk => ?_⟩
  rw [hexchanged.basis, h.canonical.getD_set (by omega)]
  split
  · exact hj
  · exact h.done k (by omega)

theorem withRhs (h : Emptied first i s) (r : Nat) (x : ℚ) : Emptied first i (s.withRhs r x) :=
  ⟨h.canonical.setRhs r x, h.first_le, h.done⟩

theorem erase (h : Emptied first i s) (hi : i < s.tableau.rows) :
    Emptied first i (s.eraseRow i) := by
  refine ⟨h.canonical.eraseRow hi, h.first_le, fun k hk => ?_⟩
  rw [getD_basis_eraseRow, Tableau.rowBefore_of_lt hk]
  exact h.done k hk

/-- **One round of the loop** deals with one row. -/
theorem expelAt (h : Emptied first i s) (htol : 0 ≤ tolerance) {left : Nat}
    (hrows : s.tableau.rows = i + (left + 1)) {next : Nat} {t : State ℚ}
    (hround : s.expelAt first tolerance i = .ok (next, t)) :
    Emptied first next t ∧ t.tableau.rows = next + left := by
  have hi : i < s.tableau.rows := by omega
  rcases h.canonical.expelAt_cases htol hi h.first_le with ⟨hbasic, hkeep⟩ |
    ⟨j, u, -, hj, -, -, hexchanged, hcanonical, hexchange⟩ | ⟨-, -, herase⟩
  · rw [hkeep] at hround
    cases hround
    exact ⟨h.keep hbasic, by omega⟩
  · rw [hexchange] at hround
    cases hround
    refine ⟨(h.exchange hi hj hexchanged hcanonical).withRhs i 0, ?_⟩
    rw [show (u.withRhs i 0).tableau.rows = u.tableau.rows from rfl, hexchanged.rows]
    omega
  · rw [herase] at hround
    cases hround
    refine ⟨h.erase hi, ?_⟩
    rw [rows_eraseRow hi]
    omega

end Emptied

end State

/-! ### Visited states -/

namespace Program

variable {p : Program ℚ} {settings : Settings ℚ} {stage : Stage} {s : State ℚ}

/-- What is true of every state met in a stage, whatever its right-hand sides. -/
def Tracks (p : Program ℚ) : Stage → State ℚ → Prop
  | .search, s => s.Canonical ∧ s.objective = (EqualityForm.ofProgram p).artificialCosts
  | .expulsion row left, s => s.Emptied p.firstArtificial row ∧ s.tableau.rows = row + left
  | .second, s => s.Canonical ∧ s.objective = p.extendedCosts

theorem Tracks.canonical (h : p.Tracks stage s) : s.Canonical := by
  cases stage with
  | search => exact h.1
  | expulsion row left => exact h.1.canonical
  | second => exact h.1

theorem isBasis_handedOver {row : Nat} (h : p.Tracks (.expulsion row 0) s) :
    (p.handedOver s).IsBasis s.basis := by
  have hrows := h.2
  exact h.1.canonical.dropColumns fun i hi => h.1.done i (by omega)

/-- **What a stage says of a state is true of all states visited in it.** -/
theorem tracks_of_visits (htol : 0 ≤ settings.tolerance) (h : p.Visits settings stage s) :
    p.Tracks stage s := by
  induction h with
  | searchStart _ _ hstart =>
      obtain ⟨hobjective, -, -, hcanonical⟩ :=
        State.of_ofTableau (EqualityForm.isBasis_ofProgram p) hstart
      exact ⟨hcanonical, hobjective⟩
  | searchStep _ hstep ih =>
      obtain ⟨hcanonical, hsame⟩ := ih.1.step htol hstep
      exact ⟨hcanonical, hsame.objective.trans ih.2⟩
  | expulsionStart _ _ _ ih =>
      refine ⟨⟨ih.1, ?_, fun k hk => absurd hk k.not_lt_zero⟩, (Nat.zero_add _).symm⟩
      rw [ih.2, EqualityForm.length_artificialCosts, EqualityForm.cols_ofProgram]
      omega
  | expulsionStep _ hround ih => exact ih.1.expelAt htol ih.2 hround
  | handover _ hstart ih =>
      obtain ⟨hobjective, -, -, hcanonical⟩ :=
        State.of_ofTableau (isBasis_handedOver ih) hstart
      exact ⟨hcanonical, hobjective⟩
  | directStart _ _ hstart =>
      obtain ⟨hobjective, -, -, hcanonical⟩ :=
        State.of_ofTableau (EqualityForm.isBasis_ofProgram p) hstart
      exact ⟨hcanonical, hobjective⟩
  | secondStep _ hstep ih =>
      obtain ⟨hcanonical, hsame⟩ := ih.1.step htol hstep
      exact ⟨hcanonical, hsame.objective.trans ih.2⟩

/-! ### Exchanges -/

/-- Where the exchanges of a solve are made: at an entry that is not zero. -/
theorem Tracks.exchanges (h : p.Tracks stage s) (htol : 0 ≤ settings.tolerance) {row col : Nat}
    (hexchanges : p.Exchanges settings stage s row col) :
    row < s.tableau.rows ∧ col < s.objective.length ∧ s.tableau.entry row col ≠ 0 := by
  cases hexchanges with
  | search hverdict => exact State.of_verdict_exchange htol hverdict
  | expulsion hexpulsion =>
      obtain ⟨-, hcol, hentry⟩ := State.expulsion_eq_exchange hexpulsion
      exact ⟨by rw [h.2]; omega, hcol.trans_le h.1.first_le, abs_pos.1 (htol.trans_lt hentry)⟩
  | second hverdict => exact State.of_verdict_exchange htol hverdict

/-- **The column that enters the basis is not in it.** -/
theorem Tracks.not_mem_basis (h : p.Tracks stage s) (htol : 0 ≤ settings.tolerance) {row col : Nat}
    (hexchanges : p.Exchanges settings stage s row col) : col ∉ s.basis := by
  obtain ⟨hrow, -, hpivot⟩ := h.exchanges htol hexchanges
  cases hexchanges with
  | search hverdict =>
      exact h.1.not_mem_basis_of_price htol (State.verdict_eq_exchange hverdict).1
  | expulsion hexpulsion =>
      obtain ⟨hbasic, hcol, -⟩ := State.expulsion_eq_exchange hexpulsion
      intro hmem
      -- an entry in the row makes it the column of this row, which is an artificial one
      obtain ⟨i, hi, rfl⟩ := h.1.canonical.exists_of_mem hmem
      have hrow' : row = i := by
        by_contra hne
        exact hpivot (by rw [h.1.canonical.unit i hi row hrow, if_neg hne])
      rw [hrow'] at hbasic
      omega
  | second hverdict =>
      exact h.1.not_mem_basis_of_price htol (State.verdict_eq_exchange hverdict).1

/-- **A repair is only ever asked for at a canonical basis.** -/
theorem isBasis_of_repairs (htol : 0 ≤ settings.tolerance) {tableau : Tableau ℚ}
    {basis : List Nat} (h : p.Repairs settings tableau basis) : tableau.IsBasis basis := by
  cases h with
  | start _ => exact EqualityForm.isBasis_ofProgram p
  | handover hvisits => exact isBasis_handedOver (tracks_of_visits htol hvisits)
  | @exchange _ t _ _ hvisits hexchanges =>
      have htracks := tracks_of_visits htol hvisits
      obtain ⟨hrow, hcol, hpivot⟩ := htracks.exchanges htol hexchanges
      have hcols := t.cols_tableau
      exact htracks.canonical.eliminate hrow (by omega) hpivot

/-! ### Reduced costs written down -/

/-- When a solve meets `s`, the reduced costs written down last are those of `u`. They are written
down when a state is made from a table and after each exchange, hence not when a round of the
expulsion sets a right-hand side or erases a row. -/
inductive PricedAt (p : Program ℚ) (settings : Settings ℚ) :
    Stage → State ℚ → State ℚ → Prop where
  | search {s : State ℚ} : p.Visits settings .search s → PricedAt p settings .search s s
  | second {s : State ℚ} : p.Visits settings .second s → PricedAt p settings .second s s
  /-- The expulsion begins with the last state of the search. -/
  | expulsionStart {s : State ℚ} :
      p.Visits settings .search s →
      s.verdict settings (Direction.sign .minimize) = .stop .optimal →
      ¬settings.tolerance < magnitude s.objectiveValue →
      PricedAt p settings (.expulsion 0 s.tableau.rows) s s
  /-- A round with an exchange, after which the right-hand side is set. -/
  | replaced {s u v : State ℚ} {row left col : Nat} :
      PricedAt p settings (.expulsion row (left + 1)) s u →
      s.expulsion p.firstArtificial settings.tolerance row = .exchange col →
      s.exchange row col = .ok v →
      PricedAt p settings (.expulsion (row + 1) left) (v.withRhs row 0) v
  /-- A round without an exchange. -/
  | passed {s t u : State ℚ} {row left next : Nat} :
      PricedAt p settings (.expulsion row (left + 1)) s u →
      (∀ col, s.expulsion p.firstArtificial settings.tolerance row ≠ .exchange col) →
      s.expelAt p.firstArtificial settings.tolerance row = .ok (next, t) →
      PricedAt p settings (.expulsion next left) t u

theorem PricedAt.visits {u : State ℚ} (h : p.PricedAt settings stage s u) :
    p.Visits settings stage s := by
  induction h with
  | search hvisits => exact hvisits
  | second hvisits => exact hvisits
  | expulsionStart hvisits hverdict hsum => exact hvisits.expulsionStart hverdict hsum
  | replaced _ hexpulsion hexchange ih =>
      refine ih.expulsionStep ?_
      rw [State.expelAt, hexpulsion]
      dsimp only
      rw [hexchange]
      rfl
  | passed _ _ hround ih => exact ih.expulsionStep hround

/-- Whatever state a solve meets, some reduced costs are written down. -/
theorem Visits.exists_pricedAt (h : p.Visits settings stage s) :
    ∃ u, p.PricedAt settings stage s u := by
  induction h with
  | searchStart hfit hsome hstart => exact ⟨_, .search (.searchStart hfit hsome hstart)⟩
  | searchStep hvisits hstep _ => exact ⟨_, .search (hvisits.searchStep hstep)⟩
  | expulsionStart hvisits hverdict hsum _ => exact ⟨_, .expulsionStart hvisits hverdict hsum⟩
  | @expulsionStep s t row left next _ hround ih =>
      obtain ⟨u, hpriced⟩ := ih
      cases hexpulsion : s.expulsion p.firstArtificial settings.tolerance row with
      | exchange col =>
          rw [State.expelAt, hexpulsion] at hround
          obtain ⟨v, hexchange, hdone⟩ := Fault.bind_eq_ok.1 hround
          cases hdone
          exact ⟨v, hpriced.replaced hexpulsion hexchange⟩
      | keep => exact ⟨u, hpriced.passed (fun col h => nomatch hexpulsion.symm.trans h) hround⟩
      | erase => exact ⟨u, hpriced.passed (fun col h => nomatch hexpulsion.symm.trans h) hround⟩
  | handover hvisits hstart _ => exact ⟨_, .second (hvisits.handover hstart)⟩
  | directStart hfit hnone hstart => exact ⟨_, .second (.directStart hfit hnone hstart)⟩
  | secondStep hvisits hstep _ => exact ⟨_, .second (hvisits.secondStep hstep)⟩

/-- A round without an exchange makes no column basic. -/
theorem mem_basis_of_expelAt {t : State ℚ} {first i next : Nat} {tolerance : ℚ}
    (hnone : ∀ col, s.expulsion first tolerance i ≠ .exchange col)
    (hround : s.expelAt first tolerance i = .ok (next, t)) {b : Nat} (hb : b ∈ t.basis) :
    b ∈ s.basis := by
  unfold State.expelAt at hround
  cases hexpulsion : s.expulsion first tolerance i with
  | keep =>
      rw [hexpulsion] at hround
      cases hround
      exact hb
  | exchange col => exact absurd hexpulsion (hnone col)
  | erase =>
      rw [hexpulsion] at hround
      cases hround
      exact List.mem_of_mem_eraseIdx hb

/-- **The reduced costs written down are zero on the basic columns**, in every state that a solve
meets. Between two rounds of the expulsion they are those of an earlier state, which had these
columns in its basis as well. -/
theorem PricedAt.reducedCost (htol : 0 ≤ settings.tolerance) {u : State ℚ}
    (h : p.PricedAt settings stage s u) : ∀ b ∈ s.basis, u.reducedCost b = 0 := by
  induction h with
  | search hvisits =>
      exact fun b hb => (tracks_of_visits htol hvisits).canonical.reducedCost_of_mem hb
  | second hvisits =>
      exact fun b hb => (tracks_of_visits htol hvisits).canonical.reducedCost_of_mem hb
  | expulsionStart hvisits _ _ =>
      exact fun b hb => (tracks_of_visits htol hvisits).canonical.reducedCost_of_mem hb
  | replaced hpriced hexpulsion hexchange _ =>
      have htracks := tracks_of_visits htol hpriced.visits
      obtain ⟨hrow, hcol, hpivot⟩ := htracks.exchanges htol (.expulsion hexpulsion)
      obtain ⟨v, hv, -, hnext⟩ := htracks.canonical.exists_exchange hrow hcol hpivot
      cases hexchange.symm.trans hv
      exact fun b hb => hnext.reducedCost_of_mem hb
  | passed _ hnone hround ih => exact fun b hb => ih b (mem_basis_of_expelAt hnone hround hb)

/-- **The canonical basis of a solve**, for constraints stored in any way. In every state that a
solve meets, each row has a basic column of its own, which is not the right-hand side, is the unit
column of the row and has no reduced cost; a column that is priced in is not basic. Every exchange
can be made and changes the basis at its own row only, and wherever a basis is repaired, each row
is found to have its unit column recorded, so no row is negated or looked through again. -/
theorem canonical_of_visits (p : Program ℚ) {settings : Settings ℚ}
    (htol : 0 ≤ settings.tolerance) :
    (∀ stage s, p.Visits settings stage s →
      s.basis.length = s.tableau.rows ∧ s.basis.Nodup ∧
      (∀ b ∈ s.basis, b < s.tableau.cols - 1) ∧
      (∀ i < s.tableau.rows, ∀ k < s.tableau.rows,
        s.tableau.entry k (s.basis.getD i 0) = if k = i then 1 else 0) ∧
      (∀ b ∈ s.basis, s.reducedCost b = 0) ∧
      ∀ sign col, s.price sign settings.tolerance = some col → col ∉ s.basis) ∧
    (∀ stage s row col, p.Visits settings stage s → p.Exchanges settings stage s row col →
      col ∉ s.basis ∧ ∃ t, s.exchange row col = .ok t ∧ t.basis = s.basis.set row col) ∧
    ∀ tableau basis, p.Repairs settings tableau basis →
      (∀ i < tableau.rows, tableau.isUnitAt i (basis.getD i 0) 1 = true) ∧
      tableau.repair basis = (tableau, basis) := by
  refine ⟨fun stage s hvisits => ?_, fun stage s row col hvisits hexchanges => ?_,
    fun tableau basis hrepairs => ?_⟩
  · have hcanonical := (tracks_of_visits htol hvisits).canonical
    refine ⟨hcanonical.length, hcanonical.nodup, fun b hb => hcanonical.lt_of_mem hb,
      hcanonical.unit, fun b hb => hcanonical.reducedCost_of_mem hb,
      fun sign col hprice => hcanonical.not_mem_basis_of_price htol hprice⟩
  · have htracks := tracks_of_visits htol hvisits
    obtain ⟨hrow, hcol, hpivot⟩ := htracks.exchanges htol hexchanges
    obtain ⟨t, ht, hexchanged, -⟩ := htracks.canonical.exists_exchange hrow hcol hpivot
    exact ⟨htracks.not_mem_basis htol hexchanges, t, ht, hexchanged.basis⟩
  · have hbasis := isBasis_of_repairs htol hrepairs
    exact ⟨fun i hi => hbasis.isUnitAt hi, hbasis.repair_eq⟩

/-- The last constraint is stored with a right-hand side below zero. On the way to the second phase
one row has been erased and one artificial variable expelled. -/
theorem canonical_of_visits_stored_raw :
    let p : Program ℚ := ⟨.minimize, [1, 1], [⟨[1, 1], .equal, 2⟩, ⟨[2, 2], .equal, 4⟩,
      ⟨[1, -1], .atLeast, 2⟩, ⟨[-1, 0], .atMost, -1⟩]⟩
    let settings : Settings ℚ := ⟨some 5, 1 / 1000⟩
    let s : State ℚ := ⟨[1, 1, 0, 0, 0, 0],
      ⟨3, 7, #[1, 0, 0, 0, -1 / 2, 0, 2, 0, 1, 0, 0, 1 / 2, 0, 0, 0, 0, 0, 0, -1 / 2, 1, 1], rfl⟩,
      [0, 1, 5], 0, rfl, rfl, by decide⟩
    0 ≤ settings.tolerance ∧ p.Visits settings .second s ∧ s.basis.Nodup ∧
      ∀ b ∈ s.basis, s.reducedCost b = 0 := by
  intro p settings s
  have htol : 0 ≤ settings.tolerance := by decide +kernel
  have htold : (p.solve settings).map (fun run => decide (.phaseStart .two s ∈ run.events)) =
      .ok true := by decide +kernel
  have hvisits : p.Visits settings .second s := by
    cases hrun : p.solve settings with
    | error e => rw [hrun] at htold; cases htold
    | ok run =>
        rw [hrun] at htold
        have hmem : Event.phaseStart .two s ∈ run.events :=
          of_decide_eq_true (Except.ok.inj htold)
        exact (concludes_of_solve hrun).2 _ hmem
  obtain ⟨hstates, -⟩ := canonical_of_visits p htol
  obtain ⟨-, hnodup, -, -, hcosts, -⟩ := hstates .second s hvisits
  exact ⟨htol, hvisits, hnodup, hcosts⟩

end Program

end SimplexMethod
