import Mathlib
import Llamaste.Lib.Check

/-!
# Updates of a record field by field

An update reads its request one field after the other and assigns what it reads at once. Where a
field cannot be read, the update stops, and what it has assigned stays assigned.

## Main results

* `FieldUpdate.error_iff`: an update stops exactly when a field cannot be read, and there the
  record is as it was exactly when no field before has been changed.
* `FieldUpdate.get_of_ok`: an update that runs through has assigned what was asked for.
-/

/-- A field of a record, and how a request is read for it: the field may be absent (`none`) or
unreadable (`some none`). -/
structure FieldUpdate (σ ρ : Type) where
  α : Type
  decEq : DecidableEq α
  read : ρ → Option (Option α)
  get : σ → α
  set : σ → α → σ
  set_get : ∀ s, set s (get s) = s
  get_set : ∀ s a, get (set s a) = a

namespace FieldUpdate

variable {σ ρ : Type}

/-- What a request is to a field: it leaves the value that is there, it brings another one, or it
cannot be read. -/
inductive Status
  | kept
  | changed
  | unreadable
  deriving DecidableEq

/-- The status of a field. -/
def status (F : FieldUpdate σ ρ) (r : ρ) (s : σ) : Status :=
  have := F.decEq
  match F.read r with
  | none => .kept
  | some none => .unreadable
  | some (some a) => if a = F.get s then .kept else .changed

/-- The assignment of a field; both ends carry the record. -/
def assign (F : FieldUpdate σ ρ) (r : ρ) (s : σ) : Except σ σ :=
  match F.read r with
  | none => .ok s
  | some none => .error s
  | some (some a) => .ok (F.set s a)

/-- The assignments of fields in order. -/
def assignAll (r : ρ) : List (FieldUpdate σ ρ) → σ → Except σ σ
  | [], s => .ok s
  | F :: Fs, s => F.assign r s >>= assignAll r Fs

/-- Assignments to two fields leave each other's field alone. -/
def Independent (F G : FieldUpdate σ ρ) : Prop :=
  (∀ s a, F.get (G.set s a) = F.get s) ∧ ∀ s a, G.get (F.set s a) = G.get s

/-- What a field's status says about its assignment. -/
theorem assign_cases (F : FieldUpdate σ ρ) (r : ρ) (s : σ) :
    (F.status r s = .kept ∧ F.assign r s = .ok s) ∨
      (F.status r s = .changed ∧ ∃ a, a ≠ F.get s ∧ F.assign r s = .ok (F.set s a)) ∨
      (F.status r s = .unreadable ∧ F.assign r s = .error s) := by
  have := F.decEq
  cases hread : F.read r with
  | none => exact .inl ⟨by simp only [status, hread], by simp only [assign, hread]⟩
  | some value =>
      cases value with
      | none =>
          exact .inr (.inr ⟨by simp only [status, hread], by simp only [assign, hread]⟩)
      | some a =>
          have hassign : F.assign r s = .ok (F.set s a) := by simp only [assign, hread]
          by_cases ha : a = F.get s
          · refine .inl ⟨by simp only [status, hread, if_pos ha], ?_⟩
            rw [hassign, ha, F.set_get]
          · exact .inr (.inl ⟨by simp only [status, hread, if_neg ha], a, ha, hassign⟩)

/-- A field that no assignment of a list is about keeps its value. -/
theorem ends_assignAll {F : FieldUpdate σ ρ} {Fs : List (FieldUpdate σ ρ)}
    (h : ∀ G ∈ Fs, F.Independent G) (r : ρ) (s : σ) :
    Check.Ends (fun u => F.get u = F.get s) (assignAll r Fs s) := by
  induction Fs generalizing s with
  | nil => exact rfl
  | cons G Fs ih =>
      have hrest := ih fun G' hG' => h G' (List.mem_cons_of_mem G hG')
      rw [assignAll]
      rcases G.assign_cases r s with ⟨-, hassign⟩ | ⟨-, a, -, hassign⟩ | ⟨-, hassign⟩
      · rw [hassign]
        exact hrest s
      · have hset := hrest (G.set s a)
        rw [(h G List.mem_cons_self).1] at hset
        rw [hassign]
        exact hset
      · rw [hassign]
        exact rfl

/-- The status of a field does not change with another one. -/
theorem status_set {F G : FieldUpdate σ ρ} (h : F.Independent G) (r : ρ) (s : σ) (a : F.α) :
    G.status r (F.set s a) = G.status r s := by
  rw [status, status, h.2]

/-- **Where an update stops.** It stops exactly when a field cannot be read, and there the record
is as it was exactly when no field before that one brings another value. -/
theorem error_iff {Fs : List (FieldUpdate σ ρ)} (h : Fs.Pairwise Independent) (r : ρ) (s : σ) :
    ((∃ u, assignAll r Fs s = .error u) ↔ .unreadable ∈ Fs.map (·.status r s)) ∧
      ∀ u, assignAll r Fs s = .error u →
        (u = s ↔ .changed ∉ (Fs.map (·.status r s)).takeWhile (· ≠ .unreadable)) := by
  induction Fs generalizing s with
  | nil => exact ⟨iff_of_false nofun nofun, nofun⟩
  | cons F Fs ih =>
      obtain ⟨hF, hFs⟩ := List.pairwise_cons.mp h
      have hbind : ∀ s, (Except.ok s >>= assignAll r Fs : Except σ σ) = assignAll r Fs s :=
        fun _ => rfl
      rw [List.map_cons, assignAll]
      rcases F.assign_cases r s with ⟨hstatus, hassign⟩ | ⟨hstatus, a, ha, hassign⟩ |
        ⟨hstatus, hassign⟩
      · obtain ⟨hends, hsame⟩ := ih hFs s
        rw [hstatus, hassign, hbind]
        exact ⟨by simpa using hends, by simpa using hsame⟩
      · obtain ⟨hends, -⟩ := ih hFs (F.set s a)
        have hstatuses : Fs.map (·.status r (F.set s a)) = Fs.map (·.status r s) :=
          List.map_congr_left fun G hG => status_set (hF G hG) r s a
        rw [hstatuses] at hends
        rw [hstatus, hassign, hbind]
        refine ⟨by simpa using hends, fun u hu => ?_⟩
        have hkeeps := ends_assignAll hF r (F.set s a)
        rw [hu, F.get_set] at hkeeps
        have hget : F.get u = a := hkeeps
        refine iff_of_false (fun hus => ha ?_) (by simp)
        rw [← hget, hus]
      · rw [hstatus, hassign]
        refine ⟨iff_of_true ⟨s, rfl⟩ List.mem_cons_self, fun u hu => ?_⟩
        obtain rfl : s = u := Except.error.inj hu
        exact iff_of_true rfl (by simp)

/-- What a request asks a field to be. -/
def wanted (F : FieldUpdate σ ρ) (r : ρ) (s : σ) : F.α :=
  match F.read r with
  | some (some a) => a
  | _ => F.get s

/-- An update that runs through has assigned what was asked for. -/
theorem get_of_ok {Fs : List (FieldUpdate σ ρ)} (h : Fs.Pairwise Independent) {r : ρ} {s u : σ}
    (hok : assignAll r Fs s = .ok u) : ∀ F ∈ Fs, F.get u = F.wanted r s := by
  induction Fs generalizing s with
  | nil => exact nofun
  | cons F Fs ih =>
      obtain ⟨hF, hFs⟩ := List.pairwise_cons.mp h
      rw [assignAll] at hok
      obtain ⟨s', hassign, hrest⟩ := Check.bind_eq_ok.mp hok
      have hself : F.get s' = F.wanted r s ∧ ∀ G ∈ Fs, G.get s' = G.get s := by
        rw [assign] at hassign
        rw [wanted]
        cases hread : F.read r with
        | none =>
            rw [hread] at hassign
            obtain rfl := Except.ok.inj hassign
            exact ⟨rfl, fun _ _ => rfl⟩
        | some value =>
            cases value with
            | none =>
                rw [hread] at hassign
                exact nomatch hassign
            | some a =>
                rw [hread] at hassign
                obtain rfl := Except.ok.inj hassign
                exact ⟨F.get_set s a, fun G hG => (hF G hG).2 s a⟩
      intro G hG
      rcases List.mem_cons.mp hG with rfl | hG
      · have hkeeps := ends_assignAll hF r s'
        rw [hrest] at hkeeps
        have hkeeps : G.get u = G.get s' := hkeeps
        rw [hkeeps, hself.1]
      · rw [ih hFs hrest G hG, wanted, wanted, hself.2 G hG]

end FieldUpdate
