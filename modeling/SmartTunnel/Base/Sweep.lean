import SmartTunnel.Base.Dyadic

/-!
# Sweeps over marked blocks

A list of marked blocks gives a point the mark of the smallest block around it (`Decides`). A sweep makes such a
list into one without overlaps. It holds a current block and a queue of blocks that come behind it; a step takes
the first block of the queue. When the two do not overlap the current block is done. When one lies inside the
other and their marks agree the inner one is dropped; otherwise the outer one is split (`Step`).

Dropping is a mistake when a block of the other mark lies between the two, and so is splitting when the upper half
is already there with the other mark. Neither happens when the blocks at the start are `Clear`: `Inv` is what a
step then keeps (`Inv.step`), and at the end of a sweep the blocks that are done decide every point as those at
the start do.
-/

namespace Dyadic

structure Marked (μ : Type) where
  block : Block
  mark : μ
  deriving DecidableEq, Repr

namespace Marked

variable {μ : Type}

/-- The smallest of the blocks around the point has the mark. -/
def Decides (l : List (Marked μ)) (a : ℕ) (t : μ) : Prop :=
  ∃ n ∈ l, n.mark = t ∧ a ∈ n.block ∧ ∀ m ∈ l, a ∈ m.block → n.block ≤ m.block

/-- Blocks that occur twice have one mark. -/
def Agree (l : List (Marked μ)) : Prop := ∀ n ∈ l, ∀ m ∈ l, n.block = m.block → n.mark = m.mark

variable {l l' : List (Marked μ)} {n m x y : Marked μ} {a : ℕ} {t : μ}

/-- Only the members count. -/
theorem Decides.congr (h : ∀ n, n ∈ l ↔ n ∈ l') : Decides l a t ↔ Decides l' a t := by
  simp only [Decides, h]

theorem Agree.congr (h : ∀ n, n ∈ l ↔ n ∈ l') : Agree l ↔ Agree l' := by
  simp only [Agree, h]

theorem Agree.subset (h : Agree l') (hsub : ∀ n ∈ l, n ∈ l') : Agree l :=
  fun n hn m hm => h n (hsub n hn) m (hsub m hm)

/-- Around a point inside some block there is a smallest one. -/
theorem exists_smallest (hn : n ∈ l) (ha : a ∈ n.block) :
    ∃ m ∈ l, a ∈ m.block ∧ ∀ k ∈ l, a ∈ k.block → m.block ≤ k.block := by
  induction h : n.block.order using Nat.strong_induction_on generalizing n with
  | _ d ih =>
    by_cases hall : ∀ k ∈ l, a ∈ k.block → n.block ≤ k.block
    · exact ⟨n, hn, ha, hall⟩
    · push Not at hall
      obtain ⟨k, hk, hak, hnot⟩ := hall
      have hlt : k.block < n.block := lt_of_le_not_ge ((Block.le_total_of_mem ha hak).resolve_left hnot) hnot
      exact ih k.block.order (h ▸ (Block.lt_iff_order.1 hlt).2) hk hak rfl

/-- A point decided by a list of blocks lies in one of them. -/
theorem Decides.exists_mem (h : Decides l a t) : ∃ n ∈ l, a ∈ n.block := by
  obtain ⟨n, hn, -, ha, -⟩ := h
  exact ⟨n, hn, ha⟩

/-- Blocks that do not contain the point do not count. -/
theorem decides_cons_of_not_mem (h : a ∉ x.block) : Decides (x :: l) a t ↔ Decides l a t := by
  constructor
  · rintro ⟨n, hn, hmark, ha, hle⟩
    rcases List.mem_cons.1 hn with rfl | hn
    · exact absurd ha h
    · exact ⟨n, hn, hmark, ha, fun m hm => hle m (List.mem_cons_of_mem _ hm)⟩
  · rintro ⟨n, hn, hmark, ha, hle⟩
    refine ⟨n, List.mem_cons_of_mem _ hn, hmark, ha, ?_⟩
    intro m hm ham
    rcases List.mem_cons.1 hm with rfl | hm
    · exact absurd ham h
    · exact hle m hm ham

/-- The only block around the point decides it. -/
theorem decides_cons_of_alone (h : ∀ m ∈ l, a ∉ m.block) : Decides (x :: l) a t ↔ a ∈ x.block ∧ x.mark = t := by
  constructor
  · rintro ⟨n, hn, hmark, ha, -⟩
    rcases List.mem_cons.1 hn with rfl | hn
    · exact ⟨ha, hmark⟩
    · exact absurd ha (h n hn)
  · rintro ⟨ha, hmark⟩
    refine ⟨x, List.mem_cons_self, hmark, ha, ?_⟩
    intro m hm ham
    rcases List.mem_cons.1 hm with rfl | hm
    · exact le_rfl
    · exact absurd ham (h m hm)

/-- **A block inside another of its mark can go**, when no block between the two has a different mark. -/
theorem decides_drop (hy : y ∈ l) (hxy : x.block ≤ y.block)
    (hbetween : ∀ m ∈ l, x.block ≤ m.block → m.block ≤ y.block → m.mark = x.mark) :
    Decides (x :: l) a t ↔ Decides l a t := by
  constructor
  · rintro ⟨n, hn, hmark, ha, hle⟩
    rcases List.mem_cons.1 hn with rfl | hn
    · -- what is the smallest without it lies between the two
      have hay := Block.mem_of_le hxy ha
      obtain ⟨m, hm, ham, hsmall⟩ := exists_smallest hy hay
      have hmark' := hbetween m hm (hle m (List.mem_cons_of_mem _ hm) ham) (hsmall y hy hay)
      exact ⟨m, hm, hmark'.trans hmark, ham, hsmall⟩
    · exact ⟨n, hn, hmark, ha, fun m hm => hle m (List.mem_cons_of_mem _ hm)⟩
  · rintro ⟨n, hn, hmark, ha, hle⟩
    by_cases hax : a ∈ x.block
    · rcases Block.le_total_of_mem hax ha with h | h
      · have hmark' := hbetween n hn h (hle y hy (Block.mem_of_le hxy hax))
        refine ⟨x, List.mem_cons_self, hmark'.symm.trans hmark, hax, ?_⟩
        intro m hm ham
        rcases List.mem_cons.1 hm with rfl | hm
        · exact le_rfl
        · exact h.trans (hle m hm ham)
      · refine ⟨n, List.mem_cons_of_mem _ hn, hmark, ha, ?_⟩
        intro m hm ham
        rcases List.mem_cons.1 hm with rfl | hm
        · exact h
        · exact hle m hm ham
    · exact (decides_cons_of_not_mem hax).2 ⟨n, hn, hmark, ha, hle⟩

/-- A block that is one of the halves of another and has its mark. -/
def HalfOf (x n : Marked μ) : Prop := n.mark = x.mark ∧ (n.block = x.block.lower ∨ n.block = x.block.upper)

theorem HalfOf.lt (h : HalfOf x n) (hpos : 0 < x.block.order) : n.block < x.block := by
  rcases h.2 with h | h
  · rw [h]
    exact Block.lower_lt hpos
  · rw [h]
    exact Block.upper_lt hpos

theorem HalfOf.parent_eq (h : HalfOf x n) (hpos : 0 < x.block.order) : n.block.parent = x.block := by
  rcases h.2 with h | h
  · rw [h, Block.parent_lower hpos]
  · rw [h, Block.parent_upper hpos]

/-- **A block can be replaced by its halves.** A half that is already there, with whatever mark, need not be
added; but one that is there and is added has to agree with the other. -/
theorem decides_split (hpos : 0 < x.block.order) (hsub : ∀ n ∈ l, n ∈ l') (hnew : ∀ n ∈ l', n ∈ l ∨ HalfOf x n)
    (hlower : ∃ n ∈ l', n.block = x.block.lower) (hupper : ∃ n ∈ l', n.block = x.block.upper)
    (hagree : Agree (x :: l)) (hagree' : Agree l') : Decides (x :: l) a t ↔ Decides l' a t := by
  by_cases hax : a ∈ x.block
  · -- the half around the point
    obtain ⟨h, hh, hah, hlt, hgt⟩ : ∃ h ∈ l', a ∈ h.block ∧ h.block < x.block ∧
        ∀ b : Block, a ∈ b → b < x.block → b ≤ h.block := by
      have hlast : ∀ h : Marked μ, h.block.order = x.block.order - 1 → a ∈ h.block →
          ∀ b : Block, a ∈ b → b < x.block → b ≤ h.block := by
        intro h horder hah b hab hlt
        have := (Block.lt_iff_order.1 hlt).2
        exact Block.le_of_mem hab hah (by omega)
      rcases Block.mem_lower_or_upper hpos hax with hmem | hmem
      · obtain ⟨h, hh, heq⟩ := hlower
        refine ⟨h, hh, heq ▸ hmem, heq ▸ Block.lower_lt hpos, hlast h ?_ (heq ▸ hmem)⟩
        rw [heq]
        rfl
      · obtain ⟨h, hh, heq⟩ := hupper
        refine ⟨h, hh, heq ▸ hmem, heq ▸ Block.upper_lt hpos, hlast h ?_ (heq ▸ hmem)⟩
        rw [heq]
        rfl
    -- what is new and around the point is this half
    have hnew' : ∀ n ∈ l', a ∈ n.block → n ∈ l ∨ (n.block = h.block ∧ n.mark = x.mark) := by
      intro n hn han
      rcases hnew n hn with hn | hhalf
      · exact .inl hn
      · refine .inr ⟨Block.eq_of_le (hgt _ han (hhalf.lt hpos)) ?_, hhalf.1⟩
        have h1 := (Block.lt_iff_order.1 hlt).2
        have h2 := congrArg Block.order (hhalf.parent_eq hpos)
        simp only [Block.parent] at h2
        omega
    constructor
    · rintro ⟨n, hn, hmark, ha, hle⟩
      have hnx : n.block ≤ x.block := hle x List.mem_cons_self hax
      by_cases heq : n.block = x.block
      · -- the block itself decided: its half does
        have hnot : ∀ m ∈ l, a ∈ m.block → x.block ≤ m.block := fun m hm ham =>
          heq ▸ hle m (List.mem_cons_of_mem _ hm) ham
        have hhalf : h ∉ l := fun hmem => absurd (hnot h hmem hah) (not_le_of_gt hlt)
        have hmark' := ((hnew' h hh hah).resolve_left hhalf).2
        refine ⟨h, hh, hmark'.trans (.trans (hagree x List.mem_cons_self n hn heq.symm) hmark), hah, ?_⟩
        intro m hm ham
        rcases hnew' m hm ham with hm | ⟨hm, -⟩
        · exact hlt.le.trans (hnot m hm ham)
        · exact hm.ge
      · have hn : n ∈ l := by
          rcases List.mem_cons.1 hn with rfl | hn
          · exact absurd rfl heq
          · exact hn
        refine ⟨n, hsub n hn, hmark, ha, ?_⟩
        intro m hm ham
        rcases hnew' m hm ham with hm | ⟨hm, -⟩
        · exact hle m (List.mem_cons_of_mem _ hm) ham
        · rw [hm]
          exact hgt _ ha (lt_of_le_of_ne hnx heq)
    · rintro ⟨n, hn, hmark, ha, hle⟩
      have hnh : n.block ≤ h.block := hle h hh hah
      by_cases hin : ∃ m ∈ l, m.block = n.block
      · -- it was there before
        obtain ⟨m, hm, heq⟩ := hin
        refine ⟨m, List.mem_cons_of_mem _ hm, (hagree' m (hsub m hm) n hn heq).trans hmark, heq ▸ ha, ?_⟩
        intro k hk hak
        rw [heq]
        rcases List.mem_cons.1 hk with rfl | hk
        · exact (hnh.trans_lt hlt).le
        · exact hle k (hsub k hk) hak
      · push Not at hin
        have hmark' := ((hnew' n hn ha).resolve_left fun hmem => hin n hmem rfl).2
        refine ⟨x, List.mem_cons_self, hmark'.symm.trans hmark, hax, ?_⟩
        intro m hm ham
        rcases List.mem_cons.1 hm with rfl | hm
        · exact le_rfl
        · rcases Block.le_total_of_mem hax ham with hxm | hmx
          · exact hxm
          · by_contra hnot
            have hmh := hgt _ ham (lt_of_le_not_ge hmx hnot)
            have hnm := hle m (hsub m hm) ham
            have hhn : h.block = n.block := by
              rcases hnew' n hn ha with hmem | ⟨heq, -⟩
              · exact absurd rfl (hin n hmem)
              · exact heq.symm
            exact hin m hm (le_antisymm (hhn ▸ hmh) hnm)
  · -- the halves do not contain the point either
    rw [decides_cons_of_not_mem hax]
    have hold : ∀ n ∈ l', a ∈ n.block → n ∈ l := by
      intro n hn han
      rcases hnew n hn with hn | hhalf
      · exact hn
      · exact absurd (Block.mem_of_le (hhalf.lt hpos).le han) hax
    constructor
    · rintro ⟨n, hn, hmark, ha, hle⟩
      exact ⟨n, hsub n hn, hmark, ha, fun m hm ham => hle m (hold m hm ham) ham⟩
    · rintro ⟨n, hn, hmark, ha, hle⟩
      exact ⟨n, hold n hn ha, hmark, ha, fun m hm ham => hle m (hsub m hm) ham⟩

/-! ## A sweep -/

/-- A block of the queue is added when none there is the same, whatever its mark. -/
def addMissing (n : Marked μ) (q : List (Marked μ)) : List (Marked μ) :=
  if q.any fun m => n.block = m.block then q else q ++ [n]

/-- A queue, taken apart into a block that comes before the others, and these. -/
def First (q : List (Marked μ)) (n : Marked μ) (rest : List (Marked μ)) : Prop :=
  q.Perm (n :: rest) ∧ ∀ m ∈ rest, n.block.precedes m.block

def lowerOf (n : Marked μ) : Marked μ := ⟨n.block.lower, n.mark⟩

def upperOf (n : Marked μ) : Marked μ := ⟨n.block.upper, n.mark⟩

/-- The queue after the next block is split around the current one. -/
def around (c n : Marked μ) (rest : List (Marked μ)) : List (Marked μ) :=
  if n.block.lower = c.block then addMissing (upperOf n) rest
  else addMissing (lowerOf n) (addMissing (upperOf n) rest)

/-- The queue after the current block is split because of the next one. -/
def beside (c n : Marked μ) (rest : List (Marked μ)) : List (Marked μ) :=
  if c.block.upper = n.block then rest ++ [n] else rest ++ [upperOf c, n]

/-- What becomes of the current block and the queue when the next block starts inside the current one. -/
inductive Overlap (c n : Marked μ) (rest : List (Marked μ)) : Marked μ → List (Marked μ) → Prop
  | absorb (h : c.block ≤ n.block) (hmark : c.mark = n.mark) : Overlap c n rest n rest
  | splitNext (h : c.block < n.block) (hfirst : c.block.first = n.block.first) (hmark : c.mark ≠ n.mark) :
      Overlap c n rest c (around c n rest)
  | drop (h : n.block < c.block) (hfirst : c.block.first < n.block.first) (hmark : c.mark = n.mark) :
      Overlap c n rest c rest
  | splitCurrent (h : n.block < c.block) (hfirst : c.block.first < n.block.first) (hmark : c.mark ≠ n.mark) :
      Overlap c n rest (lowerOf c) (beside c n rest)

/-- How the blocks at the start may lie. No block has one of a different mark around it that starts with
it and lies inside a third one of its own mark. And when a block is the upper half of another one, inside a third
block of a different mark, no block of a mark that differs from the third one's too starts between the two. -/
structure Untangled (l : List (Marked μ)) : Prop where
  between : ∀ d ∈ l, ∀ m ∈ l, ∀ u ∈ l, d.block < m.block → m.block < u.block → d.block.first = m.block.first →
    d.mark = u.mark → m.mark = u.mark
  beside : ∀ d ∈ l, ∀ n ∈ l, ∀ u ∈ l, n.block < u.block → n.block.parent.first < d.block.first →
    d.block.precedes n.block → d.block ≠ n.block → n.mark ≠ u.mark → d.mark = u.mark

/-- What the blocks at the start have to be like. -/
structure Clear (l : List (Marked μ)) : Prop extends Untangled l where
  agree : Agree l

instance [DecidableEq μ] (l : List (Marked μ)) : Decidable (Agree l) := inferInstanceAs (Decidable (∀ n ∈ l, ∀ m ∈ l, _ → _))

instance [DecidableEq μ] (l : List (Marked μ)) : Decidable (Untangled l) :=
  decidable_of_iff (_ ∧ _) ⟨fun h => ⟨h.1, h.2⟩, fun h => ⟨h.1, h.2⟩⟩

instance [DecidableEq μ] (l : List (Marked μ)) : Decidable (Clear l) :=
  decidable_of_iff (Untangled l ∧ Agree l) ⟨fun h => ⟨h.1, h.2⟩, fun h => ⟨h.1, h.2⟩⟩

/-- What a sweep of the blocks `l` keeps, with the current block `c`, the queue `q` and the blocks `done`. A piece
is a block that is not one of those at the start. -/
structure Inv (l : List (Marked μ)) (c : Marked μ) (q done : List (Marked μ)) : Prop where
  first : ∀ n ∈ q, c.block.precedes n.block
  agree : Agree (c :: q)
  behind : ∀ d ∈ done, d.block.last < c.block.first
  sorted : done.Pairwise fun d e => d.block.last < e.block.first
  decided : ∀ a < c.block.first, ∀ t, Decides l a t ↔ ∃ d ∈ done, a ∈ d.block ∧ d.mark = t
  undecided : ∀ a, c.block.first ≤ a → ∀ t, Decides (c :: q) a t ↔ Decides l a t
  /-- A piece lies inside a block at the start, and its parent does not start behind the current block. -/
  origin : ∀ n ∈ c :: q, n ∈ l ∨
    (∃ o ∈ l, n.block < o.block ∧ o.mark = n.mark) ∧ n.block.parent.first ≤ c.block.first
  /-- A piece split off around the current block is followed by no block of the current mark. -/
  pieces : ∀ n ∈ q, n ∉ l → n.block.parent.first = c.block.first → n.mark ≠ c.mark →
    ∀ v ∈ q, v.block.first = c.block.first → v.mark ≠ c.mark
  /-- When the current block was split, all others start behind it. -/
  current : c ∉ l → c.block.parent.first = c.block.first → ∀ v ∈ q, c.block.first < v.block.first
  /-- The lower half of a block that was split around the current one. -/
  halves : ∀ n ∈ q, n ∉ l → n.block.first = c.block.first → n.block.parent.first = c.block.first → n.mark ≠ c.mark
  /-- A piece inside the current block has its mark. -/
  inside : ∀ n ∈ q, n ∉ l → n.block < c.block → n.mark = c.mark

variable {l q rest done : List (Marked μ)} {c n : Marked μ}

theorem First.mem (h : First q n rest) (m : Marked μ) : m ∈ q ↔ m = n ∨ m ∈ rest := by
  rw [h.1.mem_iff, List.mem_cons]

/-- The first block of the queue starts inside the current block and is not the same: it is the one or the other
that lies inside. -/
theorem Inv.first_next (hinv : Inv l c q done) (hfirst : First q n rest) : c.block.precedes n.block :=
  hinv.first n ((hfirst.mem n).2 (.inl rfl))

theorem Inv.orig (hinv : Inv l c q done) (hn : n ∈ c :: q) : ∃ o ∈ l, n.block ≤ o.block ∧ o.mark = n.mark := by
  rcases hinv.origin n hn with h | ⟨⟨o, ho, hlt, hmark⟩, -⟩
  · exact ⟨n, h, le_rfl, rfl⟩
  · exact ⟨o, ho, hlt.le, hmark⟩

/-- A sweep starts with its first block. -/
theorem Inv.init (hl : Clear l) (hfirst : First l c rest) : Inv l c rest [] where
  first := hfirst.2
  agree := hl.agree.subset fun m hm => (hfirst.mem m).2 (List.mem_cons.1 hm)
  behind := by simp
  sorted := .nil
  decided := by
    intro a ha t
    constructor
    · intro h
      obtain ⟨n, hn, han⟩ := h.exists_mem
      have hle : c.block.first ≤ n.block.first := by
        rcases (hfirst.mem n).1 hn with rfl | hn
        · exact le_rfl
        · exact (hfirst.2 n hn).first_le
      exact absurd (Block.mem_iff.1 han).1 (by omega)
    · rintro ⟨d, hd, -⟩
      cases hd
  undecided := by
    intro a _ t
    apply Decides.congr
    intro m
    rw [List.mem_cons, hfirst.mem m]
  origin := fun n hn => .inl ((hfirst.mem n).2 (List.mem_cons.1 hn))
  pieces := fun n hn hnot => absurd ((hfirst.mem n).2 (.inr hn)) hnot
  current := fun hnot => absurd ((hfirst.mem c).2 (.inl rfl)) hnot
  halves := fun n hn hnot => absurd ((hfirst.mem n).2 (.inr hn)) hnot
  inside := fun n hn hnot => absurd ((hfirst.mem n).2 (.inr hn)) hnot

/-- Behind the current block nothing is left. -/
theorem Inv.finish (hinv : Inv l c [] done) :
    (done ++ [c]).Pairwise (fun d e => d.block.last < e.block.first) ∧
      ∀ a t, Decides l a t ↔ ∃ d ∈ done ++ [c], a ∈ d.block ∧ d.mark = t := by
  refine ⟨List.pairwise_append.2 ⟨hinv.sorted, List.pairwise_singleton _ _, by simpa using hinv.behind⟩, ?_⟩
  intro a t
  simp only [List.mem_append, List.mem_singleton, or_and_right, exists_or, exists_eq_left]
  by_cases ha : a < c.block.first
  · rw [hinv.decided a ha t, or_iff_left]
    rintro ⟨hac, -⟩
    exact absurd (Block.mem_iff.1 hac).1 (by omega)
  · rw [← hinv.undecided a (by omega) t, decides_cons_of_alone (by simp), or_iff_right]
    rintro ⟨d, hd, had, -⟩
    have h1 := hinv.behind d hd
    have h2 := (Block.mem_iff.1 had).2
    omega

/-- **The current block is done** when the next one starts behind it. -/
theorem Inv.pass (hinv : Inv l c q done) (hfirst : First q n rest) (hlast : c.block.last < n.block.first) :
    Inv l n rest (done ++ [c]) := by
  have hc := c.block.first_le_last
  have hn : n ∈ q := (hfirst.mem n).2 (.inl rfl)
  have hrest : ∀ m ∈ rest, m ∈ q := fun m hm => (hfirst.mem m).2 (.inr hm)
  have hnext : ∀ m ∈ q, n.block.first ≤ m.block.first := by
    intro m hm
    rcases (hfirst.mem m).1 hm with rfl | hm
    · exact le_rfl
    · exact (hfirst.2 m hm).first_le
  -- the parents of the pieces start before the next block
  have hparent : ∀ m ∈ q, m ∉ l → m.block.parent.first < n.block.first := by
    intro m hm hnot
    have := ((hinv.origin m (List.mem_cons_of_mem _ hm)).resolve_left hnot).2
    omega
  have hcongr : ∀ m, m ∈ n :: rest ↔ m ∈ q := fun m => by rw [List.mem_cons, hfirst.mem m]
  refine ⟨hfirst.2, ?_, ?_, ?_, ?_, ?_, ?_, ?_, ?_, ?_, ?_⟩
  · exact hinv.agree.subset fun m hm => List.mem_cons_of_mem _ ((hcongr m).1 hm)
  · intro d hd
    rcases List.mem_append.1 hd with hd | hd
    · have := hinv.behind d hd
      omega
    · obtain rfl := List.mem_singleton.1 hd
      exact hlast
  · exact List.pairwise_append.2 ⟨hinv.sorted, List.pairwise_singleton _ _, by simpa using hinv.behind⟩
  · intro a ha t
    simp only [List.mem_append, List.mem_singleton, or_and_right, exists_or, exists_eq_left]
    by_cases hac : a < c.block.first
    · rw [hinv.decided a hac t, or_iff_left]
      rintro ⟨hmem, -⟩
      exact absurd (Block.mem_iff.1 hmem).1 (by omega)
    · have halone : ∀ m ∈ q, a ∉ m.block := by
        intro m hm ham
        have h1 := hnext m hm
        have h2 := (Block.mem_iff.1 ham).1
        omega
      rw [← hinv.undecided a (by omega) t, decides_cons_of_alone halone, or_iff_right]
      rintro ⟨d, hd, had, -⟩
      have h1 := hinv.behind d hd
      have h2 := (Block.mem_iff.1 had).2
      omega
  · intro a ha t
    have hnot : a ∉ c.block := fun hac => absurd (Block.mem_iff.1 hac).2 (by omega)
    rw [← hinv.undecided a (by omega) t, decides_cons_of_not_mem hnot]
    exact Decides.congr hcongr
  · intro m hm
    have hm := (hcongr m).1 hm
    refine (hinv.origin m (List.mem_cons_of_mem _ hm)).imp id fun h => ⟨h.1, ?_⟩
    have := h.2
    omega
  · intro m hm hnot heq
    exact absurd heq (hparent m (hrest m hm) hnot).ne
  · intro hnot heq
    exact absurd heq (hparent n hn hnot).ne
  · intro m hm hnot _ heq
    exact absurd heq (hparent m (hrest m hm) hnot).ne
  · intro m hm hnot hlt
    have h1 := Block.first_le (Block.lt_iff_parent_le.1 hlt)
    exact absurd (hparent m (hrest m hm) hnot) (not_lt.2 h1)

/-- **The current block goes** when it lies inside the next one and has its mark. -/
theorem Inv.absorb (hinv : Inv l c q done) (hfirst : First q n rest) (hle : c.block ≤ n.block)
    (hmark : c.mark = n.mark) : Inv l n rest done := by
  have hn : n ∈ q := (hfirst.mem n).2 (.inl rfl)
  have hrest : ∀ m ∈ rest, m ∈ q := fun m hm => (hfirst.mem m).2 (.inr hm)
  have heq : c.block.first = n.block.first := le_antisymm (hinv.first n hn).first_le (Block.first_le hle)
  have hcongr : ∀ m, m ∈ c :: n :: rest ↔ m ∈ c :: q := fun m => by
    rw [List.mem_cons, List.mem_cons, List.mem_cons, hfirst.mem m]
  have hagree : Agree (c :: n :: rest) := (Agree.congr hcongr).2 hinv.agree
  refine ⟨hfirst.2, ?_, ?_, hinv.sorted, ?_, ?_, ?_, ?_, ?_, ?_, ?_⟩
  · exact hagree.subset fun m hm => List.mem_cons_of_mem _ hm
  · rw [← heq]
    exact hinv.behind
  · rw [← heq]
    exact hinv.decided
  · intro a ha t
    rw [← hinv.undecided a (by omega) t, ← Decides.congr hcongr, decides_drop List.mem_cons_self hle]
    -- a block between the two is the next one
    intro m hm hcm hmn
    have hfirsts : n.block.first = m.block.first := by
      have h1 := Block.first_le hcm
      have h2 := Block.first_le hmn
      omega
    have hnm : n.block ≤ m.block := by
      rcases List.mem_cons.1 hm with rfl | hm
      · exact le_rfl
      · exact (hfirst.2 m hm).le_of_first_eq hfirsts
    have hblock : m.block = n.block := le_antisymm hmn hnm
    rw [hmark]
    exact hagree m (List.mem_cons_of_mem _ hm) n (by simp) hblock
  · intro m hm
    rw [← heq]
    exact hinv.origin m ((hcongr m).1 (List.mem_cons_of_mem _ hm))
  · intro m hm hnot hparent hne v hv
    rw [← heq] at hparent ⊢
    rw [← hmark] at hne ⊢
    exact hinv.pieces m (hrest m hm) hnot hparent hne v (hrest v hv)
  · intro hnot hparent
    rw [← heq] at hparent
    exact absurd hmark.symm (hinv.halves n hn hnot heq.symm hparent)
  · intro m hm hnot hfirst' hparent
    rw [← heq] at hfirst' hparent
    rw [← hmark]
    exact hinv.halves m (hrest m hm) hnot hfirst' hparent
  · intro m hm hnot hlt
    by_contra hne
    -- its parent starts with the current block, so no block of the current mark should follow
    have hparent : m.block.parent.first = c.block.first := by
      have h1 := Block.first_le (Block.lt_iff_parent_le.1 hlt)
      have h2 := ((hinv.origin m (List.mem_cons_of_mem _ (hrest m hm))).resolve_left hnot).2
      omega
    exact hinv.pieces m (hrest m hm) hnot hparent (hmark ▸ hne) n hn heq.symm hmark.symm

/-- A piece that starts behind the current block is the upper half of its parent, and no block around it starts
with it. -/
theorem Inv.first_lt_of_piece (hinv : Inv l c q done) {m : Marked μ} (hn : n ∈ q) (hnot : n ∉ l)
    (hlt : c.block.first < n.block.first) (hnm : n.block < m.block) : m.block.first < n.block.first := by
  have h1 := ((hinv.origin n (List.mem_cons_of_mem _ hn)).resolve_left hnot).2
  have h2 := Block.first_le (Block.lt_iff_parent_le.1 hnm)
  omega

/-- **The next block goes** when it lies inside the current one and has its mark. -/
theorem Inv.drop (hl : Clear l) (hinv : Inv l c q done) (hfirst : First q n rest) (hlt : n.block < c.block)
    (hbehind : c.block.first < n.block.first) (hmark : c.mark = n.mark) : Inv l c rest done := by
  have hn : n ∈ q := (hfirst.mem n).2 (.inl rfl)
  have hrest : ∀ m ∈ rest, m ∈ q := fun m hm => (hfirst.mem m).2 (.inr hm)
  have hcongr : ∀ m, m ∈ n :: c :: rest ↔ m ∈ c :: q := fun m => by
    rw [List.mem_cons, List.mem_cons, List.mem_cons, hfirst.mem m]
    tauto
  have hagree : Agree (n :: c :: rest) := (Agree.congr hcongr).2 hinv.agree
  refine ⟨fun m hm => hinv.first m (hrest m hm), ?_, hinv.behind, hinv.sorted, hinv.decided, ?_, ?_, ?_, ?_, ?_, ?_⟩
  · exact hagree.subset fun m hm => List.mem_cons_of_mem _ hm
  · intro a ha t
    rw [← hinv.undecided a ha t, ← Decides.congr hcongr, decides_drop List.mem_cons_self hlt.le]
    intro m hm hnm hmc
    rcases List.mem_cons.1 hm with rfl | hm
    · exact hmark
    · by_contra hne
      have hm' := hrest m hm
      -- a block between the two that has a different mark starts with the inner one
      have hnm' : n.block < m.block := lt_of_le_of_ne hnm fun heq =>
        hne (hagree m (by simp [hm]) n (by simp) heq.symm)
      have hmc' : m.block < c.block := lt_of_le_of_ne hmc fun heq =>
        hne ((hagree m (by simp [hm]) c (by simp) heq).trans hmark)
      have hfirsts : n.block.first = m.block.first :=
        le_antisymm (hfirst.2 m hm).first_le (Block.first_le hnm)
      have hnl : n ∈ l := by
        by_contra hnot
        exact absurd (hinv.first_lt_of_piece hn hnot hbehind hnm') (by omega)
      have hml : m ∈ l := by
        by_contra hnot
        exact hne ((hinv.inside m hm' hnot hmc').trans hmark)
      obtain ⟨o, ho, hco, homark⟩ := hinv.orig List.mem_cons_self
      have hnomark : n.mark = o.mark := hmark.symm.trans homark.symm
      exact hne ((hl.between n hnl m hml o ho hnm' (hmc'.trans_le hco) hfirsts hnomark).trans hnomark.symm)
  · intro m hm
    exact hinv.origin m ((hcongr m).1 (List.mem_cons_of_mem _ hm))
  · intro m hm hnot hparent hne v hv
    exact hinv.pieces m (hrest m hm) hnot hparent hne v (hrest v hv)
  · intro hnot hparent v hv
    exact hinv.current hnot hparent v (hrest v hv)
  · exact fun m hm => hinv.halves m (hrest m hm)
  · exact fun m hm => hinv.inside m (hrest m hm)

/-! ### Splits -/

theorem mem_addMissing {q : List (Marked μ)} {m : Marked μ} (h : m ∈ addMissing n q) : m ∈ q ∨ m = n := by
  unfold addMissing at h
  split at h
  · exact .inl h
  · simpa using h

theorem subset_addMissing {q : List (Marked μ)} {m : Marked μ} (h : m ∈ q) : m ∈ addMissing n q := by
  unfold addMissing
  split
  · exact h
  · exact List.mem_append_left _ h

theorem exists_addMissing (n : Marked μ) (q : List (Marked μ)) : ∃ m ∈ addMissing n q, m.block = n.block := by
  unfold addMissing
  split
  · rename_i h
    obtain ⟨m, hm, heq⟩ := List.any_eq_true.1 h
    exact ⟨m, hm, (of_decide_eq_true heq).symm⟩
  · exact ⟨n, by simp, rfl⟩

/-- What is added agrees with what is there. -/
theorem Agree.addMissing {q : List (Marked μ)} (h : Agree (c :: q)) (hne : n.block ≠ c.block) :
    Agree (c :: addMissing n q) := by
  unfold Marked.addMissing
  split
  · exact h
  · rename_i hnone
    simp only [List.any_eq_true, decide_eq_true_eq, not_exists, not_and] at hnone
    -- the added block occurs once
    have hother : ∀ m ∈ c :: q, n.block ≠ m.block := by
      intro m hm
      rcases List.mem_cons.1 hm with rfl | hm
      · exact hne
      · exact hnone m hm
    have hmem : ∀ m, m ∈ c :: (q ++ [n]) ↔ m ∈ c :: q ∨ m = n := fun m => by
      rw [List.mem_cons, List.mem_append, List.mem_singleton, List.mem_cons, or_assoc]
    intro m hm k hk heq
    rcases (hmem m).1 hm with hold | hnew
    · rcases (hmem k).1 hk with hold' | hnew'
      · exact h m hold k hold' heq
      · exact absurd (hnew' ▸ heq.symm) (hother m hold)
    · rcases (hmem k).1 hk with hold' | hnew'
      · exact absurd (hnew ▸ heq) (hother k hold')
      · rw [hnew, hnew']

theorem mem_around {m : Marked μ} (h : m ∈ around c n rest) :
    m ∈ rest ∨ m = upperOf n ∨ m = lowerOf n ∧ n.block.lower ≠ c.block := by
  unfold around at h
  split at h
  · exact (mem_addMissing h).imp id .inl
  · rename_i hne
    rcases mem_addMissing h with h | h
    · exact (mem_addMissing h).imp id .inl
    · exact .inr (.inr ⟨h, hne⟩)

theorem subset_around {m : Marked μ} (h : m ∈ rest) : m ∈ around c n rest := by
  unfold around
  split
  · exact subset_addMissing h
  · exact subset_addMissing (subset_addMissing h)

/-- A half of the next block is in the queue after the split, or it is the current block. -/
theorem exists_around (c n : Marked μ) (rest : List (Marked μ)) :
    (∃ m ∈ c :: around c n rest, m.block = n.block.lower) ∧ ∃ m ∈ c :: around c n rest, m.block = n.block.upper := by
  unfold around
  split
  · rename_i heq
    obtain ⟨m, hm, hblock⟩ := exists_addMissing (upperOf n) rest
    exact ⟨⟨c, List.mem_cons_self, heq.symm⟩, ⟨m, List.mem_cons_of_mem _ hm, hblock⟩⟩
  · obtain ⟨m, hm, hblock⟩ := exists_addMissing (upperOf n) rest
    obtain ⟨k, hk, hblock'⟩ := exists_addMissing (lowerOf n) (addMissing (upperOf n) rest)
    exact ⟨⟨k, List.mem_cons_of_mem _ hk, hblock'⟩, ⟨m, List.mem_cons_of_mem _ (subset_addMissing hm), hblock⟩⟩

/-- **The next block is split** when it starts with the current one, contains it and has a different mark. -/
theorem Inv.splitNext (hl : Clear l) (hinv : Inv l c q done) (hfirst : First q n rest) (hlt : c.block < n.block)
    (heq : c.block.first = n.block.first) (hmark : c.mark ≠ n.mark) : Inv l c (around c n rest) done := by
  have hn : n ∈ q := (hfirst.mem n).2 (.inl rfl)
  have hrest : ∀ m ∈ rest, m ∈ q := fun m hm => (hfirst.mem m).2 (.inr hm)
  have hpos : 0 < n.block.order := Nat.zero_lt_of_lt (Block.lt_iff_order.1 hlt).2
  have hupper : c.block.first < n.block.upper.first := heq ▸ Block.first_lt_upper_first hpos
  have hlower : n.block.lower.first = c.block.first := (Block.lower_first hpos).trans heq.symm
  -- the lower half contains the current block
  have hclower : c.block ≤ n.block.lower := by
    rcases Block.le_lower_or_upper hlt with h | h
    · exact h
    · exact absurd (Block.first_le h) (not_le.2 hupper)
  -- no block of the current mark that starts with it follows
  have hnone : ∀ v ∈ q, v.block.first = c.block.first → v.mark ≠ c.mark := by
    intro v hv hvfirst hvmark
    have hvn : v ∈ rest := by
      rcases (hfirst.mem v).1 hv with rfl | h
      · exact absurd hvmark.symm hmark
      · exact h
    have hnv : n.block < v.block := by
      refine lt_of_le_of_ne ((hfirst.2 v hvn).le_of_first_eq (heq.symm.trans hvfirst.symm)) fun h => ?_
      have := hinv.agree n (List.mem_cons_of_mem _ hn) v (List.mem_cons_of_mem _ hv) h
      exact hmark (hvmark.symm.trans this.symm)
    have hparentOf : ∀ m : Marked μ, m ∈ c :: q → m ∉ l → (∃ k : Marked μ, m.block < k.block ∧
        k.block.first = c.block.first) → m.block.parent.first = c.block.first := by
      rintro m hm hnot ⟨k, hmk, hkfirst⟩
      have h1 := ((hinv.origin m hm).resolve_left hnot).2
      have h2 := Block.first_le (Block.lt_iff_parent_le.1 hmk)
      omega
    have hnl : n ∈ l := by
      by_contra hnot
      have hparent := hparentOf n (List.mem_cons_of_mem _ hn) hnot ⟨v, hnv, hvfirst⟩
      exact hinv.pieces n hn hnot hparent (Ne.symm hmark) v hv hvfirst hvmark
    have hcl : c ∈ l := by
      by_contra hnot
      have hparent := hparentOf c List.mem_cons_self hnot ⟨n, hlt, heq.symm⟩
      exact absurd (hinv.current hnot hparent n hn) (by omega)
    obtain ⟨o, ho, hvo, homark⟩ := hinv.orig (List.mem_cons_of_mem _ hv)
    have hcomark : c.mark = o.mark := hvmark.symm.trans homark.symm
    exact hmark (hcomark.trans (hl.between c hcl n hnl o ho hlt (hnv.trans_le hvo) heq hcomark).symm)
  have hold : ∀ m ∈ around c n rest, m ∉ rest → HalfOf n m := by
    intro m hm hnot
    rcases (mem_around hm).resolve_left hnot with rfl | ⟨rfl, -⟩
    · exact ⟨rfl, .inr rfl⟩
    · exact ⟨rfl, .inl rfl⟩
  have hcongr : ∀ m, m ∈ n :: c :: rest ↔ m ∈ c :: q := fun m => by
    rw [List.mem_cons, List.mem_cons, List.mem_cons, hfirst.mem m]
    tauto
  have hagree : Agree (n :: c :: rest) := (Agree.congr hcongr).2 hinv.agree
  have hagree' : Agree (c :: around c n rest) := by
    have hrest : Agree (c :: rest) := hagree.subset fun m hm => List.mem_cons_of_mem _ hm
    have hone : Agree (c :: addMissing (upperOf n) rest) := by
      apply hrest.addMissing
      intro h
      have := congrArg Block.first h
      simp only [upperOf] at this
      omega
    unfold around
    split
    · exact hone
    · rename_i hne
      exact hone.addMissing hne
  have hpieces : ∀ m ∈ around c n rest, m.block.first = c.block.first → m.mark ≠ c.mark := by
    intro m hm hmfirst
    by_cases hmem : m ∈ rest
    · exact hnone m (hrest m hmem) hmfirst
    · rw [(hold m hm hmem).1]
      exact Ne.symm hmark
  refine ⟨?_, hagree', hinv.behind, hinv.sorted, hinv.decided, ?_, ?_, ?_, ?_, ?_, ?_⟩
  · intro m hm
    rcases mem_around hm with hm | rfl | ⟨rfl, -⟩
    · exact hinv.first m (hrest m hm)
    · exact .inl hupper
    · exact .inr ⟨hlower.symm, hclower.1⟩
  · intro a ha t
    rw [← hinv.undecided a ha t, ← Decides.congr hcongr]
    obtain ⟨hex, hex'⟩ := exists_around c n rest
    refine (decides_split hpos ?_ ?_ hex hex' hagree hagree').symm
    · intro m hm
      exact (List.mem_cons.1 hm).elim (fun h => h ▸ List.mem_cons_self) fun h =>
        List.mem_cons_of_mem _ (subset_around h)
    · intro m hm
      rcases List.mem_cons.1 hm with rfl | hm
      · exact .inl List.mem_cons_self
      · by_cases hmem : m ∈ rest
        · exact .inl (List.mem_cons_of_mem _ hmem)
        · exact .inr (hold m hm hmem)
  · intro m hm
    by_cases hmem : m ∈ c :: rest
    · exact hinv.origin m ((hcongr m).1 (List.mem_cons_of_mem _ hmem))
    · rw [List.mem_cons, not_or] at hmem
      have hhalf := hold m ((List.mem_cons.1 hm).resolve_left hmem.1) hmem.2
      obtain ⟨o, ho, hno, homark⟩ := hinv.orig (List.mem_cons_of_mem _ hn)
      refine .inr ⟨⟨o, ho, (hhalf.lt hpos).trans_le hno, homark.trans hhalf.1.symm⟩, ?_⟩
      rw [hhalf.parent_eq hpos, heq]
  · exact fun m _ _ _ _ v hv hvfirst => hpieces v hv hvfirst
  · intro hnot hparent
    exact absurd (hinv.current hnot hparent n hn) (by omega)
  · exact fun m hm _ hmfirst _ => hpieces m hm hmfirst
  · intro m hm hnot hmc
    by_cases hmem : m ∈ rest
    · exact hinv.inside m (hrest m hmem) hnot hmc
    · -- the halves are not inside the current block
      rcases (mem_around hm).resolve_left hmem with rfl | ⟨rfl, -⟩
      · have h1 := Block.last_le hmc.le
        have h2 := Block.last_le hclower
        have h3 := Block.upper_first n.block
        have h4 := n.block.upper.first_le_last
        simp only [upperOf] at h1
        omega
      · exact absurd hmc (not_lt_of_ge hclower)

theorem mem_beside {m : Marked μ} :
    m ∈ beside c n rest ↔ m ∈ rest ∨ m = n ∨ m = upperOf c ∧ c.block.upper ≠ n.block := by
  unfold beside
  split
  · rename_i h
    simp [h]
  · rename_i h
    simp only [List.mem_append, List.mem_cons, List.not_mem_nil, or_false, ne_eq, h, not_false_eq_true, and_true]
    tauto

/-- **The current block is split** when the next one lies inside it and has a different mark. -/
theorem Inv.splitCurrent (hl : Clear l) (hinv : Inv l c q done) (hfirst : First q n rest) (hlt : n.block < c.block)
    (hbehind : c.block.first < n.block.first) (hmark : c.mark ≠ n.mark) :
    Inv l (lowerOf c) (beside c n rest) done := by
  have hn : n ∈ q := (hfirst.mem n).2 (.inl rfl)
  have hrest : ∀ m ∈ rest, m ∈ q := fun m hm => (hfirst.mem m).2 (.inr hm)
  have hpos : 0 < c.block.order := Nat.zero_lt_of_lt (Block.lt_iff_order.1 hlt).2
  have hlower : (lowerOf c).block.first = c.block.first := Block.lower_first hpos
  have hupper : c.block.first < (upperOf c).block.first := Block.first_lt_upper_first hpos
  have hmem : ∀ m ∈ beside c n rest, m ∈ q ∨ m = upperOf c ∧ c.block.upper ≠ n.block := by
    intro m hm
    rcases mem_beside.1 hm with h | rfl | h
    · exact .inl (hrest m h)
    · exact .inl hn
    · exact .inr h
  have hsub : ∀ m ∈ q, m ∈ beside c n rest := by
    intro m hm
    rcases (hfirst.mem m).1 hm with rfl | h
    · exact mem_beside.2 (.inr (.inl rfl))
    · exact mem_beside.2 (.inl h)
  have hbehind' : ∀ m ∈ beside c n rest, c.block.first < m.block.first := by
    intro m hm
    rcases hmem m hm with h | ⟨rfl, -⟩
    · rcases (hfirst.mem m).1 h with rfl | h
      · exact hbehind
      · exact hbehind.trans_le (hfirst.2 m h).first_le
    · exact hupper
  -- a block of the queue that is the upper half has its mark, unless it is the next block
  have htwin : c.block.upper ≠ n.block → ∀ m ∈ q, m.block = c.block.upper → m.mark = c.mark := by
    intro hne m hm hblock
    by_contra hmc
    have hmlt : m.block < c.block := hblock ▸ Block.upper_lt hpos
    have hml : m ∈ l := by
      by_contra hnot
      exact hmc (hinv.inside m hm hnot hmlt)
    have hnl : n ∈ l := by
      by_contra hnot
      exact hmark (hinv.inside n hn hnot hlt).symm
    have hnm : n.block.precedes m.block := by
      rcases (hfirst.mem m).1 hm with rfl | h
      · exact absurd hblock.symm hne
      · exact hfirst.2 m h
    have hparent : m.block.parent.first < n.block.first := by
      rw [hblock, Block.parent_upper hpos]
      exact hbehind
    obtain ⟨o, ho, hco, homark⟩ := hinv.orig List.mem_cons_self
    have hnm' : n.block ≠ m.block := fun h => hne (hblock.symm.trans h.symm)
    have hcontra := hl.beside n hnl m hml o ho (hmlt.trans_le hco) hparent hnm hnm' (homark ▸ hmc)
    exact hmark (homark ▸ hcontra).symm
  have hagree' : Agree (lowerOf c :: beside c n rest) := by
    have hlowerOnce : ∀ m ∈ beside c n rest, m.block ≠ c.block.lower := by
      intro m hm h
      have h1 := hbehind' m hm
      have h2 := congrArg Block.first h
      rw [Block.lower_first hpos] at h2
      omega
    intro m hm k hk heq
    rcases List.mem_cons.1 hm with rfl | hm
    · rcases List.mem_cons.1 hk with rfl | hk
      · rfl
      · exact absurd heq.symm (hlowerOnce k hk)
    · rcases List.mem_cons.1 hk with rfl | hk
      · exact absurd heq (hlowerOnce m hm)
      · rcases hmem m hm with hm | ⟨rfl, hne⟩
        · rcases hmem k hk with hk | ⟨rfl, hne⟩
          · exact hinv.agree m (List.mem_cons_of_mem _ hm) k (List.mem_cons_of_mem _ hk) heq
          · exact htwin hne m hm heq
        · rcases hmem k hk with hk | ⟨rfl, -⟩
          · exact (htwin hne k hk heq.symm).symm
          · rfl
  refine ⟨?_, hagree', ?_, hinv.sorted, ?_, ?_, ?_, ?_, ?_, ?_, ?_⟩
  · intro m hm
    exact .inl (hlower ▸ hbehind' m hm)
  · rw [hlower]
    exact hinv.behind
  · rw [hlower]
    exact hinv.decided
  · intro a ha t
    rw [hlower] at ha
    rw [← hinv.undecided a ha t]
    refine (decides_split hpos ?_ ?_ ?_ ?_ hinv.agree hagree').symm
    · exact fun m hm => List.mem_cons_of_mem _ (hsub m hm)
    · intro m hm
      rcases List.mem_cons.1 hm with rfl | hm
      · exact .inr ⟨rfl, .inl rfl⟩
      · rcases hmem m hm with hm | ⟨rfl, -⟩
        · exact .inl hm
        · exact .inr ⟨rfl, .inr rfl⟩
    · exact ⟨lowerOf c, List.mem_cons_self, rfl⟩
    · by_cases hne : c.block.upper = n.block
      · exact ⟨n, List.mem_cons_of_mem _ (hsub n hn), hne.symm⟩
      · exact ⟨upperOf c, List.mem_cons_of_mem _ (mem_beside.2 (.inr (.inr ⟨rfl, hne⟩))), rfl⟩
  · obtain ⟨o, ho, hco, homark⟩ := hinv.orig List.mem_cons_self
    intro m hm
    rw [hlower]
    by_cases hold : m ∈ q
    · exact hinv.origin m (List.mem_cons_of_mem _ hold)
    · have hhalf : HalfOf c m := by
        rcases List.mem_cons.1 hm with rfl | hm
        · exact ⟨rfl, .inl rfl⟩
        · rcases hmem m hm with hm | ⟨rfl, -⟩
          · exact absurd hm hold
          · exact ⟨rfl, .inr rfl⟩
      refine .inr ⟨⟨o, ho, (hhalf.lt hpos).trans_le hco, homark.trans hhalf.1.symm⟩, ?_⟩
      rw [hhalf.parent_eq hpos]
  · intro m hm hnot hparent hne v hv hvfirst
    rw [hlower] at hvfirst
    exact absurd hvfirst (hbehind' v hv).ne'
  · intro _ _ v hv
    rw [hlower]
    exact hbehind' v hv
  · intro m hm _ hmfirst
    rw [hlower] at hmfirst
    exact absurd hmfirst (hbehind' m hm).ne'
  · intro m hm hnot hmc
    have hmc' := hmc.trans (Block.lower_lt hpos)
    rcases hmem m hm with hm | ⟨rfl, -⟩
    · exact hinv.inside m hm hnot hmc'
    · rfl

/-- **What a step keeps.** -/
theorem Inv.overlap (hl : Clear l) (hinv : Inv l c q done) (hfirst : First q n rest) {c' : Marked μ}
    {q' : List (Marked μ)} (h : Overlap c n rest c' q') : Inv l c' q' done := by
  cases h with
  | absorb h hmark => exact hinv.absorb hfirst h hmark
  | splitNext h heq hmark => exact hinv.splitNext hl hfirst h heq hmark
  | drop h hbehind hmark => exact hinv.drop hl hfirst h hbehind hmark
  | splitCurrent h hbehind hmark => exact hinv.splitCurrent hl hfirst h hbehind hmark

/-! ### What counts down -/

/-- A block counts for more than its halves together. -/
def weight (q : List (Marked μ)) : ℕ := (q.map fun n => 3 ^ n.block.order).sum

@[simp] theorem weight_nil : weight ([] : List (Marked μ)) = 0 := rfl

@[simp] theorem weight_cons (n : Marked μ) (q : List (Marked μ)) : weight (n :: q) = 3 ^ n.block.order + weight q := rfl

theorem weight_append (q q' : List (Marked μ)) : weight (q ++ q') = weight q + weight q' := by
  simp [weight]

theorem weight_perm {q q' : List (Marked μ)} (h : q.Perm q') : weight q = weight q' := (h.map _).sum_eq

theorem weight_addMissing (n : Marked μ) (q : List (Marked μ)) : weight (addMissing n q) ≤ weight q + 3 ^ n.block.order := by
  unfold addMissing
  split
  · exact Nat.le_add_right _ _
  · rw [weight_append]
    simp [weight]

theorem two_halves_lt (h : 0 < n.block.order) : 3 ^ (n.block.order - 1) + 3 ^ (n.block.order - 1) < 3 ^ n.block.order := by
  obtain ⟨k, hk⟩ : ∃ k, n.block.order = k + 1 := ⟨n.block.order - 1, by omega⟩
  rw [hk, Nat.add_sub_cancel, pow_succ]
  have hpos : 0 < 3 ^ k := by positivity
  omega

/-- **The blocks that are left count for less after each step.** -/
theorem Overlap.weight_lt {c' : Marked μ} {q' : List (Marked μ)} (h : Overlap c n rest c' q') :
    weight (c' :: q') < weight (c :: n :: rest) := by
  cases h with
  | absorb => simp [weight_cons]
  | drop => simp [weight_cons]
  | splitNext h =>
    have hhalves := two_halves_lt (Nat.zero_lt_of_lt (Block.lt_iff_order.1 h).2)
    have hupper := weight_addMissing (upperOf n) rest
    have hlower := weight_addMissing (lowerOf n) (addMissing (upperOf n) rest)
    have harou : weight (around c n rest) ≤ weight rest + 3 ^ (n.block.order - 1) + 3 ^ (n.block.order - 1) := by
      unfold around
      split
      · exact hupper.trans (Nat.le_add_right _ _)
      · exact hlower.trans (Nat.add_le_add_right hupper _)
    simp only [weight_cons]
    omega
  | splitCurrent h =>
    have hhalves := two_halves_lt (Nat.zero_lt_of_lt (Block.lt_iff_order.1 h).2)
    have hupper : (upperOf c).block.order = c.block.order - 1 := rfl
    have hbeside : weight (beside c n rest) ≤ weight rest + 3 ^ n.block.order + 3 ^ (c.block.order - 1) := by
      unfold beside
      split
      · rw [weight_append, weight_cons, weight_nil, Nat.add_zero]
        exact Nat.le_add_right _ _
      · rw [weight_append, weight_cons, weight_cons, weight_nil, hupper]
        omega
    have hlower : (lowerOf c).block.order = c.block.order - 1 := rfl
    simp only [weight_cons, hlower]
    omega

end Marked

end Dyadic
