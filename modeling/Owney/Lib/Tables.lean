import Mathlib.Data.List.Sort
import Mathlib.Data.List.Nodup

/-!
# Tables

A table is the list of its rows, in the order they were inserted. The
operations are the SQL ones a row-at-a-time store needs: `update` is
`UPDATE .. SET .. WHERE ..`, `lookup` is a `SELECT` by a key, `orderBy` is
`ORDER BY` on one column (insertion order among equals), `limit` is `LIMIT`,
where a negative number means no limit.
-/

namespace Tables

universe u v

variable {ρ : Type u} {κ : Type v}

/-- `UPDATE t SET .. WHERE p`. -/
def update (p : ρ → Bool) (f : ρ → ρ) (t : List ρ) : List ρ :=
  t.map fun r => if p r then f r else r

theorem mem_update {p : ρ → Bool} {f : ρ → ρ} {t : List ρ} {r : ρ} :
    r ∈ update p f t ↔ ∃ r₀ ∈ t, (if p r₀ then f r₀ else r₀) = r := by
  simp only [update, List.mem_map]

/-- A row after an update was updated, or is an old one that was not. -/
theorem update_cases {p : ρ → Bool} {f : ρ → ρ} {t : List ρ} {r : ρ} (h : r ∈ update p f t) :
    (∃ r₀ ∈ t, p r₀ ∧ r = f r₀) ∨ r ∈ t ∧ ¬p r := by
  obtain ⟨r₀, hr₀, rfl⟩ := mem_update.mp h
  by_cases hp : p r₀
  · exact .inl ⟨r₀, hr₀, hp, if_pos hp⟩
  · rw [if_neg hp]
    exact .inr ⟨hr₀, hp⟩

/-- An update that leaves a column alone leaves the whole column alone. -/
theorem map_update (g : ρ → κ) {p : ρ → Bool} {f : ρ → ρ} (hf : ∀ r, g (f r) = g r)
    (t : List ρ) : (update p f t).map g = t.map g := by
  rw [update, List.map_map]
  refine List.map_congr_left fun r _ => ?_
  by_cases hp : p r
  · simp [hp, hf]
  · simp [hp]

/-- A search on columns the update leaves alone finds the updated row. -/
theorem find?_update {q p : ρ → Bool} {f : ρ → ρ} (hq : ∀ r, q (f r) = q r) (t : List ρ) :
    (update p f t).find? q = (t.find? q).map fun r => if p r then f r else r := by
  induction t with
  | nil => rfl
  | cons r t ih =>
    have hr : q (if p r then f r else r) = q r := by
      by_cases hp : p r
      · simp [hp, hq]
      · simp [hp]
    rw [update, List.map_cons, List.find?_cons, List.find?_cons, hr]
    cases q r
    · exact ih
    · rfl

/-- An update of rows the selection leaves out is not seen by it. -/
theorem filter_update_of_mem {q p : ρ → Bool} {f : ρ → ρ} (hq : ∀ r, q (f r) = q r)
    {t : List ρ} (hpq : ∀ r ∈ t, p r → q r = false) : (update p f t).filter q = t.filter q := by
  induction t with
  | nil => rfl
  | cons r t ih =>
    have hrest := ih fun r hr => hpq r (List.mem_cons_of_mem _ hr)
    by_cases hp : p r
    · have h₁ : q r = false := hpq r List.mem_cons_self hp
      rw [update, List.map_cons, if_pos hp, List.filter_cons_of_neg (by simp [hq, h₁]),
        List.filter_cons_of_neg (by simp [h₁])]
      exact hrest
    · rw [update, List.map_cons, if_neg hp, List.filter_cons, List.filter_cons]
      have : List.filter q (List.map (fun r => if p r then f r else r) t) = t.filter q := hrest
      rw [this]

/-- The same for rows that no selected row is one of. -/
theorem filter_update {q p : ρ → Bool} {f : ρ → ρ} (hq : ∀ r, q (f r) = q r)
    (hpq : ∀ r, p r → q r = false) (t : List ρ) :
    (update p f t).filter q = t.filter q :=
  filter_update_of_mem hq fun r _ => hpq r

/-- A selection on columns the update leaves alone selects the updated rows. -/
theorem filter_update_of_congr {q p : ρ → Bool} {f : ρ → ρ} (hq : ∀ r, q (f r) = q r)
    (t : List ρ) : (update p f t).filter q = update p f (t.filter q) := by
  rw [update, update, List.filter_map]
  congr 1
  refine List.filter_congr fun r _ => ?_
  by_cases hp : p r
  · simp [hp, hq]
  · simp [hp]

/-- `INSERT .. ON CONFLICT DO UPDATE SET ..`, where `q` selects the conflicting rows. -/
def upsert (q : ρ → Bool) (f : ρ → ρ) (new : ρ) (t : List ρ) : List ρ :=
  if t.any q then update q f t else t ++ [new]

/-- What is in the table after an upsert. -/
theorem mem_upsert {q : ρ → Bool} {f : ρ → ρ} {new r : ρ} {t : List ρ} (h : r ∈ upsert q f new t) :
    r = new ∨ ∃ r₀ ∈ t, (if q r₀ then f r₀ else r₀) = r := by
  unfold upsert at h
  split at h
  · exact .inr (mem_update.mp h)
  · rename_i hany
    rcases List.mem_append.mp h with h | h
    · refine .inr ⟨r, h, if_neg ?_⟩
      exact fun hq => hany (List.any_eq_true.mpr ⟨r, h, hq⟩)
    · exact .inl (List.mem_singleton.mp h)

/-- What was in the table before an upsert is in it after, updated or not. -/
theorem mem_upsert_of_mem {q : ρ → Bool} {f : ρ → ρ} {new r : ρ} {t : List ρ} (hr : r ∈ t) :
    (if q r then f r else r) ∈ upsert q f new t := by
  unfold upsert
  split
  · exact mem_update.mpr ⟨r, hr, rfl⟩
  · rename_i hany
    rw [if_neg fun hq => hany (List.any_eq_true.mpr ⟨r, hr, hq⟩)]
    exact List.mem_append_left _ hr

/-- The upserted row is the old one updated, or the new one. -/
theorem find?_upsert_self {q : ρ → Bool} {f : ρ → ρ} {new : ρ} (hf : ∀ r, q (f r) = q r)
    (hnew : q new) (t : List ρ) :
    (upsert q f new t).find? q = some (((t.find? q).map f).getD new) := by
  unfold upsert
  rcases hfind : t.find? q with _ | r
  · have hany : t.any q = false := by
      rw [List.any_eq_false]
      exact List.find?_eq_none.mp hfind
    rw [hany, if_neg Bool.false_ne_true, List.find?_append, hfind, Option.none_or,
      List.find?_cons_of_pos hnew]
    rfl
  · have hr : q r := List.find?_some hfind
    rw [if_pos (List.any_eq_true.mpr ⟨r, List.mem_of_find?_eq_some hfind, hr⟩),
      find?_update hf, hfind, Option.map_some, if_pos hr]
    rfl

/-- A search for other rows does not see an upsert. -/
theorem find?_upsert_of_disjoint {p q : ρ → Bool} {f : ρ → ρ} {new : ρ}
    (hf : ∀ r, p (f r) = p r) (hpq : ∀ r, q r → p r = false) (hnew : p new = false) (t : List ρ) :
    (upsert q f new t).find? p = t.find? p := by
  unfold upsert
  split
  · rw [find?_update hf]
    refine (Option.map_congr fun r hr => ?_).trans Option.map_id'
    have hp : p r := List.find?_some hr
    rw [if_neg]
    intro hq
    rw [hpq r hq] at hp
    cases hp
  · rw [List.find?_append, List.find?_cons_of_neg (by simp [hnew]), List.find?_nil, Option.or_none]

/-- An upsert of rows a selection leaves out is not seen by it. -/
theorem filter_upsert_of_disjoint {p q : ρ → Bool} {f : ρ → ρ} {new : ρ}
    (hf : ∀ r, p (f r) = p r) (hpq : ∀ r, q r → p r = false) (hnew : p new = false) (t : List ρ) :
    (upsert q f new t).filter p = t.filter p := by
  unfold upsert
  split
  · exact filter_update hf hpq t
  · rw [List.filter_append, List.filter_cons_of_neg (by simp [hnew]), List.filter_nil,
      List.append_nil]

/-! ## Keys -/

/-- In a table with a unique key, two rows with one key are one row. -/
theorem eq_of_key_eq {g : ρ → κ} {t : List ρ} (hnd : (t.map g).Nodup) {r r' : ρ}
    (hr : r ∈ t) (hr' : r' ∈ t) (hg : g r = g r') : r = r' :=
  List.inj_on_of_nodup_map hnd hr hr' hg

/-- The same for a key that some rows lack. -/
theorem eq_of_partial_key_eq {g : ρ → Option κ} {t : List ρ} (hnd : (t.filterMap g).Nodup)
    {r r' : ρ} (hr : r ∈ t) (hr' : r' ∈ t) {k : κ} (hg : g r = some k) (hg' : g r' = some k) :
    r = r' := by
  induction t with
  | nil => cases hr
  | cons x t ih =>
    have hnd' : (t.filterMap g).Nodup := hnd.sublist ((List.sublist_cons_self x t).filterMap g)
    have hhead : g x = some k → ∀ y ∈ t, g y ≠ some k := by
      intro hx y hy hgy
      rw [List.filterMap_cons_some hx, List.nodup_cons] at hnd
      exact hnd.1 (List.mem_filterMap.mpr ⟨y, hy, hgy⟩)
    rcases List.mem_cons.mp hr with rfl | hmem
    · rcases List.mem_cons.mp hr' with rfl | hmem'
      · rfl
      · exact absurd hg' (hhead hg _ hmem')
    · rcases List.mem_cons.mp hr' with rfl | hmem'
      · exact absurd hg (hhead hg' _ hmem)
      · exact ih hnd' hmem hmem'

/-- In a table with a unique key, a search that pins the key finds the row. -/
theorem find?_eq_some_of_key {g : ρ → κ} {t : List ρ} (hnd : (t.map g).Nodup) {q : ρ → Bool}
    {r : ρ} (hr : r ∈ t) (hq : q r) (hkey : ∀ r', q r' → g r' = g r) :
    t.find? q = some r := by
  cases hfind : t.find? q with
  | none =>
    rw [List.find?_eq_none] at hfind
    exact absurd hq (hfind r hr)
  | some r' =>
    have hmem : r' ∈ t := List.mem_of_find?_eq_some hfind
    have hq' : q r' := List.find?_some hfind
    rw [eq_of_key_eq hnd hmem hr (hkey r' hq')]

/-- `INSERT` of a row with a fresh key. -/
theorem nodup_map_insert {g : ρ → κ} {t : List ρ} {r : ρ} (hnd : (t.map g).Nodup)
    (hr : g r ∉ t.map g) : ((t ++ [r]).map g).Nodup := by
  rw [List.map_append, List.map_singleton]
  exact hnd.append (List.nodup_singleton _) (List.disjoint_singleton.mpr hr)

/-- An update that leaves the keys alone keeps them unique. -/
theorem nodup_map_update {g : ρ → κ} {p : ρ → Bool} {f : ρ → ρ} (hf : ∀ r, g (f r) = g r)
    {t : List ρ} (hnd : (t.map g).Nodup) : ((update p f t).map g).Nodup := by
  rwa [map_update g hf]

/-- An upsert keeps keys unique. -/
theorem nodup_map_upsert {g : ρ → κ} {q : ρ → Bool} {f : ρ → ρ} {new : ρ} {t : List ρ}
    (hnd : (t.map g).Nodup) (hf : ∀ r, g (f r) = g r) (hq : ∀ r, g r = g new → q r) :
    ((upsert q f new t).map g).Nodup := by
  unfold upsert
  split
  · rwa [map_update g hf]
  · rename_i hany
    refine nodup_map_insert hnd fun hmem => hany ?_
    obtain ⟨r, hr, hkey⟩ := List.mem_map.mp hmem
    exact List.any_eq_true.mpr ⟨r, hr, hq r hkey⟩

/-! ## `ORDER BY` and `LIMIT` -/

/-- `ORDER BY key`. -/
def orderBy [LinearOrder κ] (key : ρ → κ) (t : List ρ) : List ρ :=
  t.insertionSort fun r s => key r ≤ key s

theorem orderBy_perm [LinearOrder κ] (key : ρ → κ) (t : List ρ) :
    (orderBy key t).Perm t :=
  List.perm_insertionSort _ t

@[simp] theorem mem_orderBy [LinearOrder κ] {key : ρ → κ} {t : List ρ} {r : ρ} :
    r ∈ orderBy key t ↔ r ∈ t :=
  (orderBy_perm key t).mem_iff

@[simp] theorem length_orderBy [LinearOrder κ] (key : ρ → κ) (t : List ρ) :
    (orderBy key t).length = t.length :=
  (orderBy_perm key t).length_eq

theorem pairwise_orderBy [LinearOrder κ] (key : ρ → κ) (t : List ρ) :
    (orderBy key t).Pairwise fun r s => key r ≤ key s :=
  have : Std.Total fun r s : ρ => key r ≤ key s := ⟨fun _ _ => le_total _ _⟩
  have : IsTrans ρ fun r s => key r ≤ key s := ⟨fun _ _ _ => le_trans⟩
  List.pairwise_insertionSort _ t

/-- An update that leaves the sort key alone keeps the order. -/
theorem orderBy_update [LinearOrder κ] {key : ρ → κ} {p : ρ → Bool} {f : ρ → ρ}
    (hf : ∀ r, key (f r) = key r) (t : List ρ) :
    orderBy key (update p f t) = update p f (orderBy key t) := by
  have hkey : ∀ r, key (if p r then f r else r) = key r := by
    intro r
    split
    · exact hf r
    · rfl
  exact (List.map_insertionSort _ _ _ _ fun r _ s _ => by rw [hkey, hkey]).symm

/-- `LIMIT n`; a negative `n` is no limit. -/
def limit (n : ℤ) (t : List ρ) : List ρ := if n < 0 then t else t.take n.toNat

theorem limit_of_neg {n : ℤ} (hn : n < 0) (t : List ρ) : limit n t = t := if_pos hn

theorem limit_natCast (n : ℕ) (t : List ρ) : limit (n : ℤ) t = t.take n := by
  rw [limit, if_neg (by omega), Int.toNat_natCast]

@[simp] theorem limit_nil (n : ℤ) : limit n ([] : List ρ) = [] := by
  unfold limit
  split <;> simp

end Tables
