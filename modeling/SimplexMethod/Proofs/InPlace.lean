import SimplexMethod.Proofs.CheckedSteps
import SimplexMethod.Proofs.Storage

/-!
# SimplexMethod.Proofs.InPlace

**A table that is changed in place.** `Change.call` is a change of a table that is held, where a row
is changed cell by cell: a call that fails half way would leave what it has done so far. `run_call`
says that none does, because whatever can be wrong with a change is looked at before the first cell
is written. `Tableau.session_stores` is what follows for changes in a row, from one change at a time
(`session_step`): the array never holds anything but the rows that the same changes make of a list.
-/

namespace SimplexMethod

variable {K : Type}

/-! ### Calls -/

/-- Calls that change a table in place and may fail. What a call has done before it failed stays
done. -/
abbrev Edit (K : Type) := ExceptT Fault (StateM (Tableau K))

namespace Edit

variable {α β : Type} {x : Edit K α} {f : α → Edit K β} {t u : Tableau K}

theorem run_lift (r : Except Fault α) (t : Tableau K) :
    (liftExcept r : Edit K α).run.run t = (r, t) := by
  cases r <;> rfl

theorem run_bind_ok {a : α} (h : x.run.run t = (.ok a, u)) :
    (x >>= f).run.run t = (f a).run.run u := by
  rw [ExceptT.run_bind, StateT.run_bind, h]
  rfl

theorem run_bind_error {fault : Fault} (h : x.run.run t = (.error fault, u)) :
    (x >>= f).run.run t = (.error fault, u) := by
  rw [ExceptT.run_bind, StateT.run_bind, h]
  rfl

theorem run_get_bind (f : Tableau K → Edit K β) (t : Tableau K) :
    (get >>= f : Edit K β).run.run t = (f t).run.run t := run_bind_ok rfl

theorem run_lift_bind {r : Except Fault α} {a : α} (h : r = .ok a) (f : α → Edit K β)
    (t : Tableau K) : (liftExcept r >>= f : Edit K β).run.run t = (f a).run.run t :=
  run_bind_ok (by rw [run_lift, h])

/-- A loop of calls, given the table after each number of rounds. -/
theorem run_forM_range {f : Nat → Edit K Unit} (made : Nat → Tableau K) {n : Nat}
    (h : ∀ k < n, (f k).run.run (made k) = (.ok (), made (k + 1))) :
    (forM (List.range n) f : Edit K Unit).run.run (made 0) = (.ok (), made n) := by
  induction n with
  | zero => rfl
  | succ n ih =>
    rw [List.range_succ, List.forM_append, run_bind_ok (ih fun k hk => h k (Nat.lt_succ_of_lt hk)),
      List.forM_cons, run_bind_ok (h n n.lt_succ_self)]
    rfl

end Edit

namespace Change

open Edit

/-- The table put into the place of another one, if it can be made. -/
def replace (f : Tableau K → Except Fault (Tableau K)) : Edit K Unit := do
  set (← liftExcept (f (← get)))

/-- The answer to a change that has been made or has failed, and the table that it leaves. -/
def answer (t : Tableau K) : Except Fault (Tableau K) → Except Fault Unit × Tableau K
  | .ok u => (.ok (), u)
  | .error fault => (.error fault, t)

theorem run_replace (f : Tableau K → Except Fault (Tableau K)) (t : Tableau K) :
    (replace f).run.run t = answer t (f t) := by
  rw [replace, run_get_bind]
  cases h : f t with
  | ok u => exact run_lift_bind rfl set t
  | error fault => exact run_bind_error (run_lift _ t)

section Cells

variable [Zero K]

/-- One cell, changed in place. -/
def update (i j : Nat) (f : K → K) : Edit K Unit := do
  let x ← liftExcept ((← get).cell i j)
  replace (·.withCell i j (f x))

theorem run_update {t : Tableau K} {i j : Nat} (hi : i < t.rows) (hj : j < t.cols) (f : K → K) :
    (update i j f).run.run t = (.ok (), t.set i j (f (t.entry i j))) := by
  rw [update, run_get_bind, run_lift_bind (Checked.cell_of_lt hi hj), run_replace,
    Checked.withCell_of_lt hi hj]
  rfl

/-- The table while row `i` is being changed: the cells before column `k` are done. -/
def changing (t : Tableau K) (i : Nat) (f : Nat → K → K) (k : Nat) : Tableau K :=
  t.mapIdx fun i' j x => if i' = i ∧ j < k then f j x else x

theorem entry_changing (t : Tableau K) (i : Nat) (f : Nat → K → K) (k : Nat) {i' j : Nat}
    (hi : i' < t.rows) (hj : j < t.cols) : (changing t i f k).entry i' j =
      if i' = i ∧ j < k then f j (t.entry i' j) else t.entry i' j :=
  Tableau.entry_mapIdx t _ hi hj

/-- The other rows are read as they were. -/
theorem cell_changing {t : Tableau K} {i i' j : Nat} (f : Nat → K → K) (k : Nat) (hne : i' ≠ i)
    (hi : i' < t.rows) (hj : j < t.cols) : (changing t i f k).cell i' j = .ok (t.entry i' j) := by
  rw [Checked.cell_of_lt (t := changing t i f k) hi hj, entry_changing t i f k hi hj,
    if_neg fun h => hne h.1]

theorem changing_zero (t : Tableau K) (i : Nat) (f : Nat → K → K) : changing t i f 0 = t :=
  Tableau.ext_entry rfl rfl fun i' j hi hj => by
    rw [entry_changing t i f 0 hi hj, if_neg fun h => absurd h.2 j.not_lt_zero]

/-- One more cell of the row. -/
theorem set_changing {t : Tableau K} {i k : Nat} (f : Nat → K → K) (hi : i < t.rows)
    (hk : k < t.cols) : (changing t i f k).set i k (f k ((changing t i f k).entry i k)) =
      changing t i f (k + 1) := by
  have hlast : (changing t i f k).entry i k = t.entry i k := by
    rw [entry_changing t i f k hi hk, if_neg fun h => absurd h.2 (lt_irrefl k)]
  refine Tableau.ext_entry rfl rfl fun i' j (hi' : i' < t.rows) (hj : j < t.cols) => ?_
  rw [Tableau.entry_set (changing t i f k) i k _ hi' hj, entry_changing t i f (k + 1) hi' hj,
    entry_changing t i f k hi' hj, hlast]
  by_cases hii : i' = i
  · subst hii
    rcases lt_trichotomy j k with hlt | rfl | hgt
    · simp [hlt, hlt.ne, Nat.lt_succ_of_lt hlt]
    · simp
    · simp [hgt.ne', hgt.not_gt, show ¬j < k + 1 by omega]
  · simp [hii]

/-- After the last column the row is changed as a whole. -/
theorem changing_cols (t : Tableau K) (i : Nat) (f : Nat → K → K) :
    changing t i f t.cols = t.mapIdx fun i' j x => if i' = i then f j x else x := by
  refine Tableau.ext_entry rfl rfl fun i' j (hi : i' < t.rows) (hj : j < t.cols) => ?_
  rw [entry_changing t i f t.cols hi hj, Tableau.entry_mapIdx t _ hi hj]
  simp [hj]

/-- **A row changed cell by cell** is the row changed in one pass over the table. -/
theorem run_forM_changing {t : Tableau K} {i : Nat} (hi : i < t.rows) {f : Nat → K → K}
    {round : Nat → Edit K Unit}
    (h : ∀ k < t.cols, (round k).run.run (changing t i f k) =
      (update i k (f k)).run.run (changing t i f k)) :
    (forM (List.range t.cols) round : Edit K Unit).run.run t =
      (.ok (), t.mapIdx fun i' j x => if i' = i then f j x else x) := by
  have hround : ∀ k < t.cols, (round k).run.run (changing t i f k) =
      (.ok (), changing t i f (k + 1)) := fun k hk => by
    rw [h k hk, run_update (t := changing t i f k) hi hk, set_changing f hi hk]
  have hloop := run_forM_range (changing t i f) hround
  rwa [changing_zero, changing_cols] at hloop

end Cells

variable [Zero K] [Sub K] [Mul K] [Div K]

/-- The change, made in place. A row is changed cell by cell, from left to right. -/
def call : Change K → Edit K Unit
  | .zeros rows cols => replace fun _ => Tableau.zerosAt rows cols
  | .ofRows rows => replace fun _ => Tableau.ofRows rows
  | .setCell i j x => replace (·.setCell i j x)
  | .withCell i j x => replace (·.withCell i j x)
  | .divideRow i d => do
    let row ← liftExcept ((← get).rowAt i)
    forM (List.range row.length) fun j => update i j (· / d)
  | .subtractMultiple target source factor => do
    if target = source then throw .sameRow
    else
      let t ← get
      if target < t.rows ∧ source < t.rows then
        forM (List.range t.cols) fun j => do
          let y ← liftExcept ((← get).cell source j)
          update target j (· - factor * y)
      else throw .rowPairOutside
  | .eraseRow i => replace (·.eraseRowAt i)
  | .columnsBetween start stop => replace (·.columnsBetweenAt start stop)
  | .appendColumn xs => replace (·.appendColumnAt xs)
  | .transpose => replace fun t => .ok t.transpose

/-- **A change in place** leaves the table that `Tableau.perform` makes, or the one before. -/
theorem run_call (c : Change K) (t : Tableau K) : c.call.run.run t = answer t (t.perform c) := by
  cases c with
  | divideRow i d =>
      rw [call, run_get_bind]
      by_cases hi : i < t.rows
      · have hrow : t.rowAt i = .ok (t.row i) := if_pos hi
        rw [run_lift_bind hrow, Tableau.length_row,
          run_forM_changing hi (f := fun _ x => x / d) fun _ _ => rfl, Tableau.perform,
          Checked.divideRowAt_of_lt hi]
        rfl
      · have hrow : t.rowAt i = .error (.rowOutside i t.rows) := if_neg hi
        rw [run_bind_error (by rw [run_lift, hrow]), Tableau.perform, Tableau.divideRowAt,
          if_neg hi]
        rfl
  | subtractMultiple target source factor =>
      rw [call, Tableau.perform, Tableau.subtractMultipleAt]
      by_cases hsame : target = source
      · rw [if_pos hsame, if_pos hsame]
        rfl
      · rw [if_neg hsame, if_neg hsame, run_get_bind]
        by_cases hinside : target < t.rows ∧ source < t.rows
        · rw [if_pos hinside, if_pos hinside, run_forM_changing hinside.1
            (f := fun j x => x - factor * t.entry source j) fun k hk => ?_]
          · rfl
          · rw [run_get_bind, run_lift_bind (cell_changing _ k (Ne.symm hsame) hinside.2 hk)]
        · rw [if_neg hinside, if_neg hinside]
          rfl
  | _ => exact run_replace _ t

/-- What a change in place leaves, as rows. -/
theorem grid_answer (c : Change K) (t : Tableau K) :
    (answer t (t.perform c)).2.grid = t.grid.perform c := by
  rcases t.perform_cases c with ⟨u, hu, hmade, hroom, hgrid⟩ | ⟨fault, hfault, hfails⟩
  · rw [hu, Grid.perform, if_neg (not_or.2 ⟨hmade, hroom⟩)]
    exact hgrid
  · rw [hfault, Grid.perform, if_pos hfails]
    rfl

/-- A change in place fails exactly if it is refused or there is no room for what it makes. -/
theorem answer_eq_error {c : Change K} {t : Tableau K} :
    (∃ fault, (answer t (t.perform c)).1 = .error fault) ↔
      t.grid.Refuses c ∨ t.grid.LacksRoom c := by
  rcases t.perform_cases c with ⟨u, hu, hmade, hroom, -⟩ | ⟨fault, hfault, hfails⟩
  · rw [hu]
    exact iff_of_false (fun ⟨_, hok⟩ => nomatch hok) (not_or.2 ⟨hmade, hroom⟩)
  · rw [hfault]
    exact iff_of_true ⟨fault, rfl⟩ hfails

/-- A change in place that fails changes nothing. -/
theorem answer_of_fails {c : Change K} {t : Tableau K}
    (h : t.grid.Refuses c ∨ t.grid.LacksRoom c) : (answer t (t.perform c)).2 = t := by
  obtain ⟨fault, hfault⟩ := answer_eq_error.2 h
  cases hperform : t.perform c with
  | ok u => rw [hperform] at hfault; cases hfault
  | error fault => rfl

/-! ### Changes in a row -/

/-- Changes made one after the other, with the answer to each of them. -/
def session (changes : List (Change K)) : StateM (Tableau K) (List (Except Fault Unit)) :=
  changes.mapM fun c => c.call.run

theorem run_session_cons (c : Change K) (rest : List (Change K)) (t : Tableau K) :
    (session (c :: rest)).run t =
      ((answer t (t.perform c)).1 :: ((session rest).run (answer t (t.perform c)).2).1,
        ((session rest).run (answer t (t.perform c)).2).2) := by
  rw [session, List.mapM_cons, StateT.run_bind, run_call]
  rfl

theorem length_session (changes : List (Change K)) (t : Tableau K) :
    ((session changes).run t).1.length = changes.length := by
  induction changes generalizing t with
  | nil => rfl
  | cons c rest ih => rw [run_session_cons, List.length_cons, ih, List.length_cons]

/-- Each change is made of the table that the ones before it have left. -/
theorem session_step {changes : List (Change K)} {n : Nat} {c : Change K}
    (h : changes[n]? = some c) (t : Tableau K) :
    let u := ((session (changes.take n)).run t).2
    ((session changes).run t).1[n]? = some (answer u (u.perform c)).1 ∧
      ((session (changes.take (n + 1))).run t).2 = (answer u (u.perform c)).2 := by
  induction changes generalizing n t with
  | nil => simp at h
  | cons first rest ih =>
      cases n with
      | zero =>
          obtain rfl : first = c := by simpa using h
          rw [List.take_succ_cons, List.take_zero, List.take_zero, run_session_cons,
            run_session_cons]
          exact ⟨rfl, rfl⟩
      | succ n =>
          rw [List.getElem?_cons_succ] at h
          rw [List.take_succ_cons, List.take_succ_cons, run_session_cons, run_session_cons,
            run_session_cons]
          exact ih h _

/-- **Changes in a row**, as rows. -/
theorem grid_session (changes : List (Change K)) (t : Tableau K) :
    ((session changes).run t).2.grid = changes.foldl Grid.perform t.grid := by
  induction changes generalizing t with
  | nil => rfl
  | cons c rest ih => rw [run_session_cons, ih, grid_answer, List.foldl_cons]

end Change

namespace Tableau

variable [Zero K]

/-- Columns kept from the left, and then a new one. -/
theorem exists_appendColumnAt {t : Tableau K} {k : Nat} {xs : List K} (hk : k ≤ t.cols)
    (hxs : xs.length = t.rows) (hroom : HasRoom t.rows (k + 1)) :
    ∃ u v, t.columnsBetweenAt 0 k = .ok u ∧ u.appendColumnAt xs = .ok v ∧
      v.grid = ⟨k + 1, t.toRows.zipWith (fun r x => r.take k ++ [x]) xs⟩ := by
  refine ⟨_, _, Checked.columnsBetweenAt_of_le hk, (if_pos hxs).trans (if_pos hroom), ?_⟩
  have hkept : (t.columnsBetween 0 k).grid = _ := grid_columnsBetween hk
  have hrows := congrArg Grid.rows hkept
  rw [rows_grid] at hrows
  rw [grid_appendColumn (t := t.columnsBetween 0 k) hxs, hrows, List.zipWith_map_left]
  rfl

theorem transpose_transpose (t : Tableau K) : t.transpose.transpose = t :=
  ext_entry rfl rfl fun i j _ _ => by rw [entry_transpose, entry_transpose]

variable [Sub K] [Mul K] [Div K]

/-- **The array of a table refines the list of its rows.** Changes are made of a table one after the
other, each of them in place. After any number of them the array holds the rows that the same
changes make of the list of rows, so that it has as many cells as there are places, and reading a
row, a column or a cell gives what is there in the list, or fails where nothing is. A change fails
exactly if the list refuses it or the table it asks for is too large to be counted, and leaves the
table as it was if it fails. Where there is room for the first table, there is room for every table
reached, so no place in the array is too large to be counted. Whatever table is reached, keeping its
first columns and appending one does so row by row, and exchanging rows and columns twice gives the
same table. -/
theorem session_stores (start : Tableau K) (changes : List (Change K)) :
    let after (n : Nat) : Tableau K := ((Change.session (changes.take n)).run start).2
    let replies := ((Change.session changes).run start).1
    let rows (n : Nat) : Grid K := (changes.take n).foldl Grid.perform start.grid
    (∀ n, (after n).Stores (rows n)) ∧
    (HasRoom start.rows start.cols → ∀ n, HasRoom (after n).rows (after n).cols) ∧
    replies.length = changes.length ∧
    (∀ n c, changes[n]? = some c → ∃ reply, replies[n]? = some reply ∧
      ((∃ fault, reply = .error fault) ↔ (rows n).Refuses c ∨ (rows n).LacksRoom c) ∧
      ((rows n).Refuses c ∨ (rows n).LacksRoom c → after (n + 1) = after n) ∧
      (¬(rows n).Refuses c → ¬(rows n).LacksRoom c →
        (after (n + 1)).Stores ((rows n).after c))) ∧
    (∀ n k xs, k ≤ (rows n).cols → xs.length = (rows n).rows.length →
      HasRoom (rows n).rows.length (k + 1) →
      ∃ u v, (after n).columnsBetweenAt 0 k = .ok u ∧ u.appendColumnAt xs = .ok v ∧
        v.Stores ⟨k + 1, (rows n).rows.zipWith (fun r x => r.take k ++ [x]) xs⟩) ∧
    ∀ n, (after n).transpose.transpose = after n := by
  intro after replies rows
  have hgrid : ∀ n, (after n).grid = rows n := fun n => Change.grid_session (changes.take n) start
  refine ⟨fun n => ?_, fun hstart n => ?_, Change.length_session changes start, fun n c hc => ?_,
    fun n k xs hk hxs hroom => ?_, fun n => (after n).transpose_transpose⟩
  · rw [← hgrid n]
    exact (after n).stores_grid
  · have hroom : (rows n).HasRoom :=
      Grid.hasRoom_foldl_perform (start.hasRoom_grid.2 hstart) (changes.take n)
    rw [← hgrid n] at hroom
    exact (after n).hasRoom_grid.1 hroom
  · obtain ⟨hreply, hafter⟩ := Change.session_step hc start
    refine ⟨_, hreply, ?_, fun hfails => ?_, fun hmade hroom => ?_⟩
    · rw [← hgrid n]
      exact Change.answer_eq_error
    · rw [← hgrid n] at hfails
      exact hafter.trans (Change.answer_of_fails hfails)
    · rw [← hgrid n] at hmade hroom ⊢
      have hnext := Change.grid_answer c (after n)
      rw [← hafter, Grid.perform, if_neg (not_or.2 ⟨hmade, hroom⟩)] at hnext
      rw [← hnext]
      exact (after (n + 1)).stores_grid
  · rw [← hgrid n] at hk hxs hroom ⊢
    rw [rows_grid, length_toRows] at hxs hroom
    obtain ⟨u, v, hu, hv, hrows⟩ := exists_appendColumnAt hk hxs hroom
    refine ⟨u, v, hu, hv, ?_⟩
    rw [rows_grid, ← hrows]
    exact v.stores_grid

/-- Changes of which five are refused, among them a column range past the last column and rows of
different lengths. Then no row is left, and a range that ends before it starts is not refused any
more. At the end there is no room for three changes that make sense: one more column for a table
that has as many as can be counted, a row too long for any array, and more cells than a word can
count. -/
theorem session_stores_mixed :
    let changes : List (Change ℚ) := [.ofRows [[1, 2, 3], [4, 5, 6]], .setCell 0 3 9,
      .setCell 2 3 8, .divideRow 1 2, .subtractMultiple 1 1 3, .subtractMultiple 0 1 2,
      .columnsBetween 1 4, .columnsBetween 1 3, .ofRows [[1], [2, 3]], .appendColumn [7],
      .appendColumn [7, 9], .transpose, .eraseRow 1, .eraseRow 0, .eraseRow 0, .columnsBetween 2 1,
      .zeros 0 (2 ^ 64 - 1), .appendColumn [], .zeros 1 (2 ^ 60), .zeros (2 ^ 32) (2 ^ 32)]
    let after (n : Nat) : Tableau ℚ := ((Change.session (changes.take n)).run (zeros 0 4)).2
    let replies := ((Change.session changes).run (zeros 0 4)).1
    let rows (n : Nat) : Grid ℚ := (changes.take n).foldl Grid.perform (zeros 0 4 : Tableau ℚ).grid
    (∀ n, (after n).Stores (rows n)) ∧
    (∀ n, HasRoom (after n).rows (after n).cols) ∧
    replies.map (·.toOption.isSome) = [true, false, true, true, false, true, false, true, false,
      false, true, true, true, true, true, true, true, false, false, false] ∧
    after 5 = after 4 ∧
    rows 11 = ⟨3, [[-3, -5, 7], [5 / 2, 4, 9]]⟩ ∧
    rows 12 = ⟨2, [[-3, 5 / 2], [-5, 4], [7, 9]]⟩ ∧
    rows 15 = ⟨2, []⟩ ∧ rows 16 = ⟨0, []⟩ ∧
    after 18 = after 17 ∧ rows 20 = ⟨2 ^ 64 - 1, []⟩ := by
  intro changes after replies rows
  obtain ⟨hstores, hroom, -, hstep, -, -⟩ := session_stores (zeros 0 4) changes
  obtain ⟨-, -, -, hrefused, -⟩ := hstep 4 _ rfl
  obtain ⟨-, -, -, hfull, -⟩ := hstep 17 _ rfl
  exact ⟨hstores, hroom (by decide +kernel), by decide +kernel, hrefused (by decide +kernel),
    by decide +kernel, by decide +kernel, by decide +kernel, by decide +kernel,
    hfull (by decide +kernel), by decide +kernel⟩

end Tableau

end SimplexMethod
