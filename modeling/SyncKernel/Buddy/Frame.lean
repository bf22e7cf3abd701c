/-
**What the allocator writes.**

The allocator keeps its lists in the free pages themselves.  So a list operation writes into free
pages and into the block in hand, and no word of another block in use.

Main definitions:

* `Buddy.Keeps` — the words of some blocks are as they were.

Main results:

* `Buddy.kbudPush_keeps`, `Buddy.kbudPop_keeps`, `Buddy.kbudPopHead_keeps` — the list operations.
-/

import SyncKernel.Buddy.Invariant

set_option relaxedAutoImplicit false
set_option autoImplicit false

namespace SyncKernel

namespace Buddy

/-- The address `x` lies in the block, given by its address and its order. -/
def Covers (b : ℕ × ℕ) (x : ℕ) : Prop := b.1 ≤ x ∧ x < b.1 + pageSize * 2 ^ b.2

instance (b : ℕ × ℕ) (x : ℕ) : Decidable (Covers b x) := inferInstanceAs (Decidable (_ ∧ _))

/-- The words of the blocks are as they were. -/
def Keeps (bs : List Blk) (st st' : State) : Prop :=
  ∀ b ∈ bs, ∀ x, Covers (ptr b.pg, b.ord) x → st'.mem (Loc.next x) = st.mem (Loc.next x)

theorem Keeps.refl (bs : List Blk) (st : State) : Keeps bs st st := fun _ _ _ _ => rfl

theorem Keeps.trans {bs : List Blk} {st st₁ st₂ : State} (h : Keeps bs st st₁)
    (h' : Keeps bs st₁ st₂) : Keeps bs st st₂ :=
  fun b hb x hx => (h' b hb x hx).trans (h b hb x hx)

theorem Keeps.mono {bs bs' : List Blk} {st st' : State} (h : Keeps bs st st') (hsub : bs' ⊆ bs) :
    Keeps bs' st st' := fun b hb => h b (hsub hb)

/-- The same for blocks that are given by their addresses and orders. -/
theorem Keeps.words {bs : List Blk} {l : List (ℕ × ℕ)} {st st' : State} (h : Keeps bs st st')
    (hl : l = bs.map fun b => (ptr b.pg, b.ord)) :
    ∀ b ∈ l, ∀ x, Covers b x → st'.mem (Loc.next x) = st.mem (Loc.next x) := by
  intro b hb x hx
  rw [hl] at hb
  obtain ⟨c, hc, rfl⟩ := List.mem_map.1 hb
  exact h c hc x hx

/-- Blocks that are apart have no address in common. -/
theorem Apart.not_covers {b b' : Blk} (h : Apart b b') {x : ℕ} (hx : Covers (ptr b.pg, b.ord) x) :
    ¬ Covers (ptr b'.pg, b'.ord) x := by
  unfold Covers Apart ptr pageSize at *
  dsimp only at *
  omega

theorem covers_self (pg ord : ℕ) : Covers (ptr pg, ord) (ptr pg) := by
  have hpos := Nat.two_pow_pos ord
  refine ⟨le_rfl, ?_⟩
  unfold pageSize
  dsimp only
  omega

/-- The first page of a block is none of the words of a block that is apart from it. -/
theorem Apart.ptr_ne {b b' : Blk} (h : Apart b' b) {x : ℕ} (hx : Covers (ptr b.pg, b.ord) x) :
    x ≠ ptr b'.pg := by
  rintro rfl
  exact h.not_covers (covers_self b'.pg b'.ord) hx

variable {st : State} {regs : List Region} {free : ℕ → ℕ → List ℕ} {live : List Blk}

/-- **A push** writes the link of the block that is pushed. -/
theorem kbudPush_keeps {r ord pg : ℕ} {ok : Bool} {st' : State} (hpg : pg < 2 ^ 35)
    (h : kbudPush st r (4096 * pg) ord = some (ok, st')) (hap : ∀ b ∈ live, Apart ⟨ord, pg⟩ b) :
    Keeps live st st' := by
  unfold kbudPush at h
  dsimp only at h
  split_ifs at h with hchk
  · obtain ⟨s', -, hst⟩ := Option.bind_eq_some_iff.1 h
    obtain rfl := (Prod.mk.inj (Option.some_inj.1 hst)).2
    intro b hb x hx
    have hne : x ≠ ptr pg := (hap b hb).ptr_ne hx
    rw [physToVirtPm_page hpg]
    simp only [State.setSlave, State.link]
    rw [Function.update_of_ne (by simp), Function.update_of_ne fun he => hne (Loc.next.inj he)]
  · obtain rfl := (Prod.mk.inj (Option.some_inj.1 h)).2
    exact Keeps.refl _ _

/-- **Popping a free block** writes the link before it, which is the head or lies in a free block. -/
theorem kbudPop_keeps (h : Inv st ⟨regs, free, live⟩) {g : Region} (hg : g ∈ regs) {k pg : ℕ}
    (hk : k ≤ 10) (hpg : pg ∈ free g.head k) {ok : Bool} {st' : State}
    (hrun : kbudPop st (ptr g.head) (4096 * pg) k = some (ok, st')) : Keeps live st st' := by
  obtain ⟨hpfn, hptr, -, hchk, hcnt, -⟩ := h.block_facts hg hk hpg
  obtain ⟨l₁, l₂, hlist⟩ := List.append_of_mem hpg
  have hl : ListOk st g k (free g.head k) := h.list g hg k hk
  have hchain := hl.chain
  rw [hlist, List.map_append, List.map_cons] at hchain
  have hnd := hl.nodup
  rw [hlist] at hnd
  have hnotmem : ptr pg ∉ l₁.map ptr := by
    intro hm
    obtain ⟨q, hq, he⟩ := List.mem_map.1 hm
    exact (List.nodup_append.1 hnd).2.2 q hq pg (by simp) (ptr_injective he)
  have hlen : (l₁.map ptr).length < addrSpace := by
    have hle : (free g.head k).length ≤ 2 ^ 34 :=
      length_le_of_nodup_of_lt hl.nodup fun p hp => ((hl.mem_in p hp).pg_lt (h.valid g hg)).2
    rw [hlist, List.length_append] at hle
    rw [List.length_map]
    unfold addrSpace
    omega
  have hfind := findLink_mem hchain hnotmem hlen
  have hcur := hchain.drop.1
  unfold kbudPop at hrun
  simp only [hpfn, hchk, hcnt, not_true_eq_false, or_self, if_false, hptr, hfind,
    Option.bind_eq_bind, Option.bind_some, hcur, ptr_ne_zero] at hrun
  obtain ⟨s', -, hst⟩ := Option.bind_eq_some_iff.1 hrun
  obtain rfl := (Prod.mk.inj (Option.some_inj.1 hst)).2
  intro b hb x hx
  refine Function.update_of_ne (fun he => ?_) _ _
  rcases linkOf_eq Loc.next (Loc.free (ptr g.head) k) (l₁.map ptr) with hhead | ⟨p, hp, hnode⟩
  · rw [hhead] at he
    cases he
  · -- the node before the block is free, and apart from the blocks in use
    obtain ⟨q, hq, rfl⟩ := List.mem_map.1 hp
    have hfree : (⟨regs, free, live⟩ : Shape).IsFree ⟨k, q⟩ := ⟨g, hg, hk, by simp [hlist, hq]⟩
    rw [hnode] at he
    exact (h.sepMix b hb _ hfree).symm.ptr_ne hx (Loc.next.inj he)

/-- **Popping the first block** of a list writes its head. -/
theorem kbudPopHead_keeps {r k blk : ℕ} {st' : State} (h : kbudPopHead st r k = some (blk, st')) :
    Keeps live st st' := by
  unfold kbudPopHead at h
  dsimp only at h
  split_ifs at h with hchk
  · obtain ⟨s', -, hst⟩ := Option.bind_eq_some_iff.1 h
    obtain rfl := (Prod.mk.inj (Option.some_inj.1 hst)).2
    intro b _ x _
    simp only [State.setSlave, State.link]
    rw [Function.update_of_ne (by simp)]
  · obtain rfl := (Prod.mk.inj (Option.some_inj.1 h)).2
    exact Keeps.refl _ _

end Buddy

end SyncKernel
