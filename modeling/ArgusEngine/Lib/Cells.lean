import Mathlib.Data.Set.Lattice
import Mathlib.Order.Interval.Set.Defs
import ArgusEngine.Lib.Bytes

/-!
# Sized cell arrays and loops of checked writes

`Cells β` is an array of `len` cells. Every access is checked; an access past the end is `none`.

* `Writes S f a a'`: from `a` to `a'` the cells of `S` were set to `f` and no others changed;
* **`Writes.foldlM`**, `Writes.exists_foldlM`: a loop of such writes, when all of them write values
  of one `f`;
* `unflatten`: a function of three indices as the contents of a flat array;
* `getElem?_flatMap_range`, `mem_zipIdx_nest`: the place of an element in a list built by a loop
  nest;
* `foldlM_isSome`, `foldlM_copyWithin`: loops of fallible steps;
* `filledBy`: a fresh array after a loop of writes. **`filledBy_eq`**: when they write every cell
  with the values of `f`.
-/

namespace CellArray

open SlotMem FlatMem

variable {α β γ ι : Type*}

structure Cells (β : Type*) where
  len : ℕ
  cell : ℕ → β

namespace Cells

variable (a : Cells β)

def filled (n : ℕ) (x : β) : Cells β := ⟨n, fun _ => x⟩

def get (i : ℕ) : Option β := if i < a.len then some (a.cell i) else none

def set (i : ℕ) (x : β) : Option (Cells β) :=
  if i < a.len then some { a with cell := fun p => if p = i then x else a.cell p } else none

/-- `copy_from_slice` of `n` cells of `src` from `s` on, to the cells from `d` on. -/
def copyFrom (d n : ℕ) (src : Cells β) (s : ℕ) : Option (Cells β) :=
  if d + n ≤ a.len ∧ s + n ≤ src.len
    then some { a with cell := place src.cell s a.cell d n } else none

/-- `copy_within(s..s + n, d)`. -/
def copyWithin (s n d : ℕ) : Option (Cells β) := a.copyFrom d n a s

/-- `Vec::resize`. -/
def resize (n : ℕ) (x : β) : Cells β := ⟨n, fun i => if i < a.len then a.cell i else x⟩

/-- `Vec::truncate`. -/
def truncate (n : ℕ) : Cells β := ⟨min n a.len, a.cell⟩

end Cells

/-! ## What a write does -/

/-- `a'` is `a` with the cells of `S` set to the values of `f`. -/
structure Writes (S : Set ℕ) (f : ℕ → β) (a a' : Cells β) : Prop where
  len : a'.len = a.len
  hit : ∀ p ∈ S, a'.cell p = f p
  keep : ∀ p, p ∉ S → a'.cell p = a.cell p

variable {S T : Set ℕ} {f : ℕ → β} {a a' a'' : Cells β}

theorem Writes.refl (f : ℕ → β) (a : Cells β) : Writes ∅ f a a :=
  ⟨rfl, fun _ h => absurd h (Set.notMem_empty _), fun _ _ => rfl⟩

theorem Writes.trans (h : Writes S f a a') (h' : Writes T f a' a'') : Writes (S ∪ T) f a a'' where
  len := h'.len.trans h.len
  hit := by
    intro p hp
    by_cases hT : p ∈ T
    · exact h'.hit p hT
    · rw [h'.keep p hT]
      exact h.hit p (hp.resolve_right hT)
  keep := by
    intro p hp
    rw [h'.keep p fun hT => hp (Or.inr hT), h.keep p fun hS => hp (Or.inl hS)]

theorem Writes.congr (h : Writes S f a a') (hST : S = T) : Writes T f a a' := hST ▸ h

theorem set_eq_some {i : ℕ} {x : β} (h : a.set i x = some a') :
    i < a.len ∧ Writes {i} (fun _ => x) a a' := by
  unfold Cells.set at h
  split_ifs at h with hi
  obtain rfl := Option.some.inj h
  exact ⟨hi, rfl, fun p hp => if_pos hp, fun p hp => if_neg hp⟩

theorem copyFrom_eq_some {d n s : ℕ} {src : Cells β} (h : a.copyFrom d n src s = some a') :
    (d + n ≤ a.len ∧ s + n ≤ src.len) ∧ a' = { a with cell := place src.cell s a.cell d n } := by
  unfold Cells.copyFrom at h
  split_ifs at h with hr
  exact ⟨hr, (Option.some.inj h).symm⟩

theorem Writes.of_copyFrom {d n s : ℕ} {src : Cells β} (h : a.copyFrom d n src s = some a')
    (hf : ∀ i < n, src.cell (s + i) = f (d + i)) : Writes (Set.Ico d (d + n)) f a a' := by
  obtain ⟨-, rfl⟩ := copyFrom_eq_some h
  refine ⟨rfl, ?_, fun p hp => place_of_notMem hp⟩
  rintro p ⟨h₁, h₂⟩
  change place src.cell s a.cell d n p = f p
  rw [place_of_mem h₁ h₂, hf _ (by omega), Nat.add_sub_cancel' h₁]

theorem Writes.of_set {i : ℕ} {x : β} (h : a.set i x = some a') (hf : x = f i) :
    Writes {i} f a a' := by
  obtain ⟨-, hw⟩ := set_eq_some h
  refine ⟨hw.len, ?_, hw.keep⟩
  rintro p rfl
  exact (hw.hit p rfl).trans hf

theorem Writes.exists_set {i : ℕ} {x : β} (hi : i < a.len) (hf : x = f i) :
    ∃ a', a.set i x = some a' ∧ Writes {i} f a a' := by
  obtain ⟨a', h⟩ : ∃ a', a.set i x = some a' := ⟨_, if_pos hi⟩
  exact ⟨a', h, .of_set h hf⟩

/-- **A loop of writes, all of them values of one `f`.** -/
theorem Writes.foldlM {g : Cells β → ι → Option (Cells β)} {S : ι → Set ℕ} {l : List ι} {n : ℕ}
    (hg : ∀ x ∈ l, ∀ b b' : Cells β, b.len = n → g b x = some b' → Writes (S x) f b b')
    (ha : a.len = n) (h : l.foldlM g a = some a') : Writes {p | ∃ x ∈ l, p ∈ S x} f a a' := by
  induction l generalizing a with
  | nil =>
    obtain rfl := Option.some.inj h
    exact (Writes.refl f a).congr (by simp)
  | cons x l ih =>
    obtain ⟨b, hb, hrest⟩ := Option.bind_eq_some_iff.mp h
    have hw := hg x List.mem_cons_self a b ha hb
    have hl := ih (fun y hy => hg y (List.mem_cons_of_mem _ hy)) (hw.len.trans ha) hrest
    refine (hw.trans hl).congr ?_
    ext p
    simp

/-- **A loop of writes that report failures**, on anything that is seen as an array. -/
theorem Writes.exists_foldlM {ε : Type*} {v : γ → Cells β} {g : γ → ι → Except ε γ}
    {S : ι → Set ℕ} {l : List ι} {n : ℕ}
    (hg : ∀ x ∈ l, ∀ b, (v b).len = n → ∃ b', g b x = .ok b' ∧ Writes (S x) f (v b) (v b')) {b : γ}
    (hb : (v b).len = n) :
    ∃ b', l.foldlM g b = .ok b' ∧ Writes {p | ∃ x ∈ l, p ∈ S x} f (v b) (v b') := by
  induction l generalizing b with
  | nil => exact ⟨b, rfl, (Writes.refl f (v b)).congr (by simp)⟩
  | cons x l ih =>
    obtain ⟨b₁, hx, hw⟩ := hg x List.mem_cons_self b hb
    obtain ⟨b₂, hl, hw'⟩ := ih (fun y hy => hg y (List.mem_cons_of_mem _ hy)) (hw.len.trans hb)
    refine ⟨b₂, ?_, (hw.trans hw').congr ?_⟩
    · rw [List.foldlM_cons, hx]
      exact hl
    · ext p
      simp

/-! ## Loops of fallible steps -/

theorem foldlM_isSome {g : γ → ι → Option γ} {I : γ → Prop} {l : List ι}
    (hg : ∀ x ∈ l, ∀ c, I c → ∃ c', g c x = some c' ∧ I c') {c : γ} (hc : I c) :
    ∃ c', l.foldlM g c = some c' ∧ I c' := by
  induction l generalizing c with
  | nil => exact ⟨c, rfl, hc⟩
  | cons x l ih =>
    obtain ⟨c', hx, hI⟩ := hg x List.mem_cons_self c hc
    obtain ⟨c'', hl, hI'⟩ := ih (fun y hy => hg y (List.mem_cons_of_mem _ hy)) hI
    refine ⟨c'', ?_, hI'⟩
    rw [List.foldlM_cons, hx]
    exact hl

theorem foldlM_keeps {g : γ → ι → Option γ} {I : γ → Prop} {l : List ι}
    (hg : ∀ x ∈ l, ∀ c c', I c → g c x = some c' → I c') {c c' : γ} (h : l.foldlM g c = some c')
    (hc : I c) : I c' := by
  induction l generalizing c with
  | nil => exact Option.some.inj h ▸ hc
  | cons x l ih =>
    obtain ⟨b, hb, hrest⟩ := Option.bind_eq_some_iff.mp h
    exact ih (fun y hy => hg y (List.mem_cons_of_mem _ hy))
      hrest (hg x List.mem_cons_self c b hc hb)

theorem len_of_copyFrom {d n s : ℕ} {src : Cells β} (h : a.copyFrom d n src s = some a') :
    a'.len = a.len := by
  obtain ⟨-, rfl⟩ := copyFrom_eq_some h
  rfl

theorem foldlM_copyWithin {src cnt dst : ι → ℕ} {l : List ι}
    (h : l.foldlM (fun b x => b.copyWithin (src x) (cnt x) (dst x)) a = some a') :
    a'.len = a.len ∧ a'.cell = l.foldl (fun m x => move m ⟨src x, dst x, cnt x⟩) a.cell := by
  induction l generalizing a with
  | nil =>
    obtain rfl := Option.some.inj h
    exact ⟨rfl, rfl⟩
  | cons x l ih =>
    obtain ⟨b, hb, hrest⟩ := Option.bind_eq_some_iff.mp h
    obtain ⟨-, rfl⟩ := copyFrom_eq_some hb
    exact ih hrest

/-- `vec![x; n]` after a loop of writes over `l`. -/
def filledBy (n : ℕ) (x : β) (l : List ι) (step : Cells β → ι → Option (Cells β)) :
    Option (List β) :=
  (l.foldlM step (Cells.filled n x)).map fun a => (List.range a.len).map a.cell

/-- **A fresh array whose every cell is written**, all writes being values of one `f`. -/
theorem filledBy_eq {n : ℕ} {x : β} {l : List ι} {step : Cells β → ι → Option (Cells β)}
    {S : ι → Set ℕ} (hstep : ∀ i ∈ l, ∀ b : Cells β, b.len = n → ∃ b', step b i = some b' ∧
    Writes (S i) f b b') (hcover : ∀ p < n, ∃ i ∈ l, p ∈ S i) :
    filledBy n x l step = some ((List.range n).map f) := by
  obtain ⟨a', ha', hlen⟩ := foldlM_isSome (c := Cells.filled n x)
    (I := fun b : Cells β => b.len = n) (fun i hi b hb => by
    obtain ⟨b', hb', hw⟩ := hstep i hi b hb
    exact ⟨b', hb', hw.len.trans hb⟩) rfl
  have hw : Writes {p | ∃ i ∈ l, p ∈ S i} f (Cells.filled n x) a' := by
    refine Writes.foldlM (n := n) (fun i hi b b' hb hb' => ?_) rfl ha'
    obtain ⟨b'', hb'', hw⟩ := hstep i hi b hb
    rwa [Option.some.inj (hb'.symm.trans hb'')]
  rw [filledBy, ha', Option.map_some, hlen]
  exact congrArg some (List.map_congr_left fun p hp => hw.hit p (hcover p (List.mem_range.mp hp)))

/-! ## Lists built by a loop nest -/

/-- **The elements of a concatenation of `n` lists of length `L`**, by block and offset. -/
theorem getElem?_flatMap_range {t : ℕ → List α} {L n j : ℕ}
    (ht : ∀ i < n, (t i).length = L) {x : α} : ((List.range n).flatMap t)[j]? = some x ↔ ∃ i < n,
    ∃ k < L, j = i * L + k ∧ (t i)[k]? = some x := by
  have hblock : ∀ i < n, ∀ k < L, ((List.range n).flatMap t)[i * L + k]? = (t i)[k]? := by
    intro i hi k hk
    rw [← slice_flatMap_range ht hi, getElem?_slice, if_pos hk]
  constructor
  · intro h
    have hj : j < n * L := by
      rw [← length_flatMap_range ht]
      exact (List.getElem?_eq_some_iff.mp h).1
    have hL : 0 < L := Nat.pos_of_ne_zero fun h0 => by simp [h0] at hj
    have hi : j / L < n := Nat.div_lt_of_lt_mul (by rwa [Nat.mul_comm])
    have hk := Nat.mod_lt j hL
    refine ⟨j / L, hi, j % L, hk, (Nat.div_add_mod' j L).symm, ?_⟩
    rw [← hblock _ hi _ hk, Nat.div_add_mod']
    exact h
  · rintro ⟨i, hi, k, hk, rfl, hx⟩
    rw [hblock i hi k hk, hx]

/-- The values of `t` in the order of three nested loops. -/
def nest (H G D : ℕ) (t : ℕ → ℕ → ℕ → α) : List α :=
  (List.range H).flatMap fun h => (List.range G).flatMap fun g =>
    (List.range D).map fun ch => t h g ch

theorem length_nest (H G D : ℕ) (t : ℕ → ℕ → ℕ → α) : (nest H G D t).length = H * (G * D) :=
  length_flatMap_range fun _ _ => length_flatMap_range fun _ _ => by simp

theorem map_nest {γ : Type*} (H G D : ℕ) (t : ℕ → ℕ → ℕ → α) (e : α → γ) :
    (nest H G D t).map e = nest H G D fun h g ch => e (t h g ch) := by
  simp [nest, List.map_flatMap, Function.comp_def]

theorem getElem?_nest {H G D j : ℕ} {t : ℕ → ℕ → ℕ → α} {x : α} : (nest H G D t)[j]? = some x ↔
    ∃ h < H, ∃ g < G, ∃ ch < D, j = h * (G * D) + (g * D + ch) ∧ t h g ch = x := by
  have hrow : ∀ h, ((List.range G).flatMap fun g => (List.range D).map fun ch =>
    t h g ch).length = G * D :=
    fun h => length_flatMap_range fun _ _ => by simp
  unfold nest
  rw [getElem?_flatMap_range fun h _ => hrow h]
  constructor
  · rintro ⟨h, hh, r, -, rfl, hx⟩
    obtain ⟨g, hg, ch, hch, rfl, hc⟩ := (getElem?_flatMap_range (L := D) fun _ _ => by simp).mp hx
    rw [List.getElem?_map, List.getElem?_range hch] at hc
    exact ⟨h, hh, g, hg, ch, hch, rfl, Option.some.inj hc⟩
  · rintro ⟨h, hh, g, hg, ch, hch, rfl, rfl⟩
    have hin : g * D + ch < G * D := Nat.lt_of_lt_of_le (Nat.add_lt_add_left hch _) (row_bound hg)
    refine ⟨h, hh, _, hin, rfl,
      (getElem?_flatMap_range (L := D) fun _ _ => by simp).mpr ⟨g, hg, ch, hch, rfl, ?_⟩⟩
    rw [List.getElem?_map, List.getElem?_range hch]
    rfl

theorem mem_zipIdx_nest {a n H G D base idx : ℕ} {x : ℕ × ℕ × ℕ × ℕ} :
    (x, idx) ∈ ((List.range' a n).flatMap fun f => nest H G D fun h g ch =>
    (f, h, g, ch)).zipIdx base ↔ ∃ i < n, ∃ h < H, ∃ g < G, ∃ ch < D,
      idx = base + (i * (H * (G * D)) + (h * (G * D) + (g * D + ch))) ∧ (a + i, h, g, ch) = x := by
  have hlen : ∀ i < n, (nest H G D fun h g ch => (a + i, h, g, ch)).length = H * (G * D) :=
    fun _ _ => length_nest ..
  rw [List.mk_mem_zipIdx_iff_le_and_getElem?_sub, List.range'_eq_map_range, List.flatMap_map,
    getElem?_flatMap_range hlen]
  constructor
  · rintro ⟨hle, i, hi, r, -, hr, hx⟩
    obtain ⟨h, hh, g, hg, ch, hch, rfl, rfl⟩ := getElem?_nest.mp hx
    exact ⟨i, hi, h, hh, g, hg, ch, hch, by omega, rfl⟩
  · rintro ⟨i, hi, h, hh, g, hg, ch, hch, rfl, rfl⟩
    have hx := (getElem?_nest (t := fun h g ch => (a + i, h, g, ch))).mpr ⟨h, hh, g,
      hg, ch, hch, rfl, rfl⟩
    have hlt := (List.getElem?_eq_some_iff.mp hx).1
    rw [length_nest] at hlt
    exact ⟨Nat.le_add_right _ _, i, hi, _, hlt, Nat.add_sub_cancel_left .., hx⟩

/-! ## Functions of three indices as flat arrays -/

theorem flat_row_le {A B x y : ℕ} (C : ℕ) (hx : x < A) (hy : y < B) :
    x * B * C + y * C + C ≤ A * B * C := by
  have h₁ := row_bound (w := C) hy
  have h₂ := row_bound (w := B * C) hx
  rw [← Nat.mul_assoc, ← Nat.mul_assoc] at h₂
  omega

theorem flat_lt {A B C x y z : ℕ} (hx : x < A) (hy : y < B) (hz : z < C) :
    x * B * C + y * C + z < A * B * C := by
  have := flat_row_le C hx hy
  omega

/-- The contents of a flat array of rows of `B` blocks of `C` cells. -/
def unflatten (B C : ℕ) (F : ℕ → ℕ → ℕ → β) (p : ℕ) : β := F (p / C / B) (p / C % B) (p % C)

theorem unflatten_apply {B C x y z : ℕ} (F : ℕ → ℕ → ℕ → β) (hy : y < B) (hz : z < C) :
    unflatten B C F (x * B * C + y * C + z) = F x y z := by
  have hC : 0 < C := by omega
  have hrow : (x * B * C + y * C + z) / C = x * B + y := by
    rw [← Nat.add_mul, Nat.add_comm, Nat.add_mul_div_right _ _ hC,
      Nat.div_eq_of_lt hz, Nat.zero_add]
  have hcol : (x * B * C + y * C + z) % C = z := by
    rw [← Nat.add_mul, Nat.mul_add_mod_self_right, Nat.mod_eq_of_lt hz]
  have hblock : (x * B + y) / B = x := by
    rw [Nat.add_comm, Nat.add_mul_div_right _ _ (by omega), Nat.div_eq_of_lt hy, Nat.zero_add]
  unfold unflatten
  rw [hrow, hcol, hblock, Nat.mul_add_mod_self_right, Nat.mod_eq_of_lt hy]

end CellArray
