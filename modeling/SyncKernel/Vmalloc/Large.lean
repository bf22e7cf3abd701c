/-
**Large pages against pages of 4 KiB.**

`pt_map_large` and `pt_map_norm` take their tables from the next address, and count the entries that
remain for them; so where a window does not begin with a table, both put what belongs into the next
table in front of the entries of this one.  They agree about it as long as no large leaf is there:
`pt_map_large` replaces the leaf, `pt_map_norm` takes it for a table.

For more than 512 GiB they do not agree: in `pt_map_large` the loop over a table of the third level is
bounded by `l3_ent_rem`, the entries that remain for all of these tables, so it goes round in the first
one.

Main definitions:

* `Vmalloc.LargeRequest` — a window of 2 MiB pages where nothing is mapped;
* `Vmalloc.Unobstructed` — where the loops come to, no large leaf is in the way;
* `Vmalloc.LargeAgrees` — both ways to map the window lead to the same translations.

Main results:

* `Vmalloc.LargeRequest.agrees` — up to 512 GiB they agree;
* `Vmalloc.Window.large_frame` — `pt_map_large` stays below the first entry of the top table;
* `Vmalloc.largeAgrees_iff` — **when they agree**.
-/

import SyncKernel.Vmalloc.Paths

set_option relaxedAutoImplicit false
set_option autoImplicit false

namespace SyncKernel

namespace Vmalloc

open Pagetbl Radix Radix.Format

/-! ### The window -/

/-- A window of 2 MiB pages in the virtual memory area, where nothing is mapped, with frames for all
the tables that may be needed. -/
structure LargeRequest (root : ℕ) (s : Tables) (vaddr paddr size : ℕ) : Prop where
  root_dvd : 4096 ∣ root
  sound : Sound root s
  vaddr_dvd : 2 ^ 21 ∣ vaddr
  paddr_dvd : 2 ^ 21 ∣ paddr
  size_dvd : 2 ^ 21 ∣ size
  paddr_lt : paddr < 2 ^ 64
  size_pos : 0 < size
  lo : kernelVmmap ≤ vaddr
  hi : vaddr + size ≤ 2 ^ 64
  blank : ∀ v, vaddr ≤ v → v < vaddr + size → find root s (pageNumber v) = none
  frames : tablesFor 3 (size / 4096) ≤ s.free.length

/-- Where the loops come to, one place for each 2 MiB of the window, no large leaf is in the way. -/
def Unobstructed (root : ℕ) (s : Tables) (vaddr size : ℕ) : Prop :=
  ∀ m < size / 2 ^ 21, ∀ n < 2 ^ 36, n / 512 = addDigits 512 3 (slot 1 vaddr) m →
    ∀ x, find root s n = some x → x.1 = 0

/-- `pt_map_large` and `pt_map_norm` return, and lead to the same translations. -/
def LargeAgrees (root : ℕ) (s : Tables) (ctx : PageCtx) : Prop :=
  ∃ s₁ s₂, ptMapLarge returnPtOrAlloc (physToVirtPm root) ctx s = some s₁ ∧
    ptMapNorm returnPtOrAlloc (physToVirtPm root) ctx s = some s₂ ∧
    ∀ v, kptGetPhys s₁.mem root v = kptGetPhys s₂.mem root v

section Agree

variable {root vaddr paddr size : ℕ} {s : Tables}

theorem kptGetPhys_find (hroot : 4096 ∣ root) (hs : Sound root s) (v : ℕ) (mem : ℕ → ℕ → ℕ) :
    kptGetPhys mem root v = physOf v (format.lookup mem 4 root (pageNumber v)) :=
  kptGetPhys_eq mem (ptRebase_eq hroot hs.root_lt) v

/-- The first page, from the first large page. -/
theorem slot_zero_eq (hv : 2 ^ 21 ∣ vaddr) : slot 0 vaddr = slot 1 vaddr * 512 := by
  rw [slot_eq (by decide), slot_eq (by decide)]
  omega

/-- The place of a page, from the place of its large page. -/
theorem place_page (hv : 2 ^ 21 ∣ vaddr) (m : ℕ) :
    addDigits 512 4 (slot 0 vaddr) m = addDigits 512 3 (slot 1 vaddr) (m / 512) * 512 + m % 512 := by
  rw [addDigits, slot_zero_eq hv, Nat.mul_div_cancel _ (by decide), Nat.mul_add_mod_self_right]

namespace LargeRequest

/-- The window for leaves of 2 MiB. -/
theorem window_one (h : LargeRequest root s vaddr paddr size) (hclear : Unobstructed root s vaddr size) :
    Window 1 root s vaddr paddr size where
  w_le := by decide
  root_dvd := h.root_dvd
  sound := h.sound
  vaddr_dvd := h.vaddr_dvd
  paddr_dvd := h.paddr_dvd
  size_dvd := h.size_dvd
  paddr_lt := h.paddr_lt
  lo := h.lo
  hi := h.hi
  clear := fun m hm n hn heq x hx => le_trans (Nat.le_of_eq (hclear m hm n hn heq x hx)) (Nat.zero_le 1)

/-- The window for pages. -/
theorem window_zero (h : LargeRequest root s vaddr paddr size) (hclear : Unobstructed root s vaddr size) :
    Window 0 root s vaddr paddr size where
  w_le := by decide
  root_dvd := h.root_dvd
  sound := h.sound
  vaddr_dvd := (Nat.pow_dvd_pow 2 (by decide)).trans h.vaddr_dvd
  paddr_dvd := (Nat.pow_dvd_pow 2 (by decide)).trans h.paddr_dvd
  size_dvd := (Nat.pow_dvd_pow 2 (by decide)).trans h.size_dvd
  paddr_lt := h.paddr_lt
  lo := h.lo
  hi := h.hi
  clear := by
    intro m hm n hn heq x hx
    have hsize := h.size_dvd
    have hplace : n / 512 = addDigits 512 3 (slot 1 vaddr) (m / 512) := by
      rw [Nat.pow_zero, Nat.div_one] at heq
      rw [heq, place_page h.vaddr_dvd]
      omega
    exact Nat.le_of_eq (hclear (m / 512) (by omega) n hn hplace x hx)

/-- The frames are enough for large pages, too. -/
theorem frames_large (h : LargeRequest root s vaddr paddr size) :
    tablesFor 2 (size / 2 ^ (12 + 9 * 1)) ≤ s.free.length := by
  have hframes := h.frames
  have hsize := h.size_dvd
  simp only [tablesFor, Nat.ceilDiv_eq_add_pred_div] at hframes ⊢
  omega

/-- **Up to 512 GiB** both map the same. -/
theorem agrees (h : LargeRequest root s vaddr paddr size) (hclear : Unobstructed root s vaddr size)
    (flags : ℕ) (hsize : size ≤ 2 ^ 39) : LargeAgrees root s (pageCtx vaddr paddr size flags) := by
  have h₁ := h.window_one hclear
  have h₀ := h.window_zero hclear
  obtain ⟨s₁, hs₁, -, hplaced₁⟩ := h₁.large_spec flags hsize h.frames_large
  obtain ⟨s₂, hs₂, -, hplaced₂⟩ := h₀.norm_spec flags h.frames
  refine ⟨s₁, s₂, hs₁, hs₂, fun v => ?_⟩
  have hdvd := h.size_dvd
  have hpaddr := h.paddr_dvd
  have hn := pageNumber_lt v
  rw [kptGetPhys_find h.root_dvd h.sound, kptGetPhys_find h.root_dvd h.sound]
  change physOf v (find root s₁ (pageNumber v)) = physOf v (find root s₂ (pageNumber v))
  by_cases hplace : ∃ m < size / 2 ^ 21, pageNumber v / 512 = addDigits 512 3 (slot 1 vaddr) m
  · obtain ⟨m, hm, hplace⟩ := hplace
    -- the page of the address in its large page
    have hpage : pageNumber v = addDigits 512 4 (slot 0 vaddr) (512 * m + pageNumber v % 512) := by
      rw [place_page h.vaddr_dvd, Nat.mul_add_div (by decide), Nat.mul_add_mod, Nat.mod_mod,
        Nat.div_eq_of_lt (Nat.mod_lt _ (by decide)), Nat.add_zero, ← hplace, Nat.div_add_mod']
    have hlow : pageNumber v % 512 = v % 2 ^ 21 / 2 ^ 12 := by
      unfold pageNumber
      omega
    rw [hplaced₁.leaf m hm _ hn (by rw [Nat.pow_one]; exact hplace),
      hplaced₂.leaf (512 * m + pageNumber v % 512) (by omega) _ hn
        (by rw [Nat.pow_zero, Nat.div_one]; exact hpage), h₁.phys_eq, h₀.phys_eq]
    omega
  · have hplace' : ∀ m < size / 2 ^ 21, pageNumber v / 512 ≠ addDigits 512 3 (slot 1 vaddr) m :=
      fun m hm heq => hplace ⟨m, hm, heq⟩
    rw [hplaced₁.other _ hn (by rw [Nat.pow_one]; exact hplace'), hplaced₂.other _ hn]
    intro m hm heq
    have hm' : addDigits 512 4 (slot 0 vaddr) m = pageNumber v := by
      rw [Nat.pow_zero, Nat.div_one] at heq
      exact heq.symm
    rw [place_page h.vaddr_dvd] at hm'
    exact hplace' (m / 512) (by omega) (by omega)

end LargeRequest

end Agree

/-! ### More than 512 GiB -/

/-- `return_pt_or_alloc` with the table at `t` changes no lookup; for an entry that is no leaf it
returns the next table, or `KPAGE_ERR`. -/
theorem returnPtOrAlloc_inv {root ℓ t a i p : ℕ} {s s' : Tables} (hroot : 4096 ∣ root) (hs : Sound root s)
    (hat : At root s (ℓ + 1) t a) (hi : i < 512)
    (h : returnPtOrAlloc (directMap.ptr t) i s = some (p, s')) :
    Sound root s' ∧ Grown root s s' ∧
      ((∀ x, Pagetbl.decode (ℓ + 1) (s.mem t i) ≠ Node.leaf x) →
        p = kpageErr ∨ ∃ q, p = directMap.ptr q ∧ At root s' ℓ q (a * 512 + i)) := by
  rw [returnPtOrAlloc, if_neg (ptr_ne (hat.aligned hroot)), Option.some_inj] at h
  cases hq : tableFor directMap (directMap.ptr t) i s with
  | none =>
      rw [Pagetbl.returnPtOrAlloc, hq] at h
      obtain ⟨rfl, rfl⟩ := Prod.mk.inj h
      exact ⟨hs, Grown.refl root s, fun _ => Or.inl rfl⟩
  | some x =>
      rw [Pagetbl.returnPtOrAlloc, hq] at h
      obtain rfl : x = (p, s') := h
      obtain ⟨hsound, hgrown⟩ := tableFor_grown hs hat hi hq
      refine ⟨hsound, hgrown, fun hleaf => Or.inr ?_⟩
      obtain ⟨q, hp, -, hat', -⟩ := tableFor_inv hs hat hi hleaf hq
      exact ⟨q, hp, hat'⟩

/-- The tables while `pt_map_large` works below the entry `d` of the top table. -/
structure Below (root : ℕ) (s : Tables) (d : ℕ) (c : Cursor) : Prop where
  sound : Sound root c.tables
  frame : ∀ n < 2 ^ 36, n / 512 ^ 3 ≠ d → find root c.tables n = find root s n
  low : ∀ n < 2 ^ 36, n / 512 ^ 3 = d → ∀ x, find root c.tables n = some x → x.1 ≤ 1
  pbase_dvd : 4096 ∣ c.pbase

namespace Below

variable {root d n : ℕ} {s : Tables} {c c' : Cursor}

theorem grown (h : Below root s d c) {tables : Tables} (hsound : Sound root tables)
    (hgrown : Grown root c.tables tables) : Below root s d { c with tables := tables } where
  sound := hsound
  frame := fun n hn hne => (hgrown.find_eq n hn).trans (h.frame n hn hne)
  low := fun n hn heq x hx => h.low n hn heq x ((hgrown.find_eq n hn).symm.trans hx)
  pbase_dvd := h.pbase_dvd

theorem close (h : Below root s d c) (rem : ℕ → ℕ) : Below root s d { c with rem := rem } :=
  ⟨h.sound, h.frame, h.low, h.pbase_dvd⟩

/-- The entries of the table of the third level are no leaves. -/
theorem not_leaf (h : Below root s d c) (hd : d < 512) {q i : ℕ} (hat : At root c.tables 2 q d)
    (hi : i < 512) (x : ℕ × ℕ) : Pagetbl.decode 2 (c.tables.mem q i) ≠ Node.leaf x := by
  intro hnode
  have hn : (d * 512 + i) * 512 ^ 2 < 2 ^ 36 := by omega
  have hfind := Reach.lookup_leaf hat hi hnode (v := (d * 512 + i) * 512 ^ 2)
    (Nat.mul_div_cancel _ (by decide))
  have hle := h.low _ hn (by omega) x hfind
  have hlevel : x.1 = 2 := congrArg Prod.fst (decode_eq_leaf hnode)
  omega

/-- An entry of a table of the second level. -/
theorem put (h : Below root s d c) {flags t a p : ℕ} (hflags : IsLeafFlags 1 flags)
    (hat : At root c.tables 1 t a) (ha : a / 512 = d) (hp : p = directMap.ptr t)
    (hput : putEntry 2 flags p c = some c') :
    Below root s d c' ∧ c'.rem = c.rem ∧
      ∀ ℓ t a, 1 ≤ ℓ → At root c.tables ℓ t a → At root c'.tables ℓ t a := by
  unfold putEntry at hput
  split_ifs at hput
  obtain rfl := Option.some_inj.1 hput
  have hphys : directMap.phys p = t := hp ▸ directMap.phys_ptr t (hat.lt h.sound)
  have hdecode : Pagetbl.decode 1 (c.pbase ||| flags) = Node.leaf (1, c.pbase ||| flags) :=
    decode_leaf (by decide) hflags h.pbase_dvd
  have hi := pageIdx_lt 2 c.vbase
  obtain ⟨hsound, hfind, hats⟩ := set_leaf_spec h.sound hat hi hdecode
  have hput' : (Pagetbl.put directMap 2 flags p c).tables =
      { c.tables with mem := set c.tables.mem t (pageIdx 2 c.vbase) (c.pbase ||| flags) } := by
    rw [Pagetbl.put, hphys]
  refine ⟨⟨hput' ▸ hsound, fun n hn hne => ?_, fun n hn heq x hx => ?_, ?_⟩, rfl,
    fun ℓ t a hℓ hat' => hput' ▸ hats hℓ hat'⟩
  · rw [hput', hfind n hn, if_neg (by omega)]
    exact h.frame n hn hne
  · rw [hput', hfind n hn] at hx
    split_ifs at hx with hslot
    · exact Option.some_inj.1 hx ▸ le_rfl
    · exact h.low n hn heq x hx
  · change 4096 ∣ Word.add c.pbase (1 <<< (3 + 9 * 2))
    have hdvd := h.pbase_dvd
    unfold Word.add
    rw [Nat.one_shiftLeft]
    omega

/-- A turn of the loop over a table of the third level. -/
theorem turn_two (h : Below root s d c) (hroot : 4096 ∣ root) (hd : d < 512) {flags q : ℕ}
    (hflags : IsLeafFlags 1 flags) (hat : At root c.tables 2 q d)
    (hturn : turnWith returnPtOrAlloc 2 capped (putEntry 2 flags) (directMap.ptr q) c = some c') :
    Below root s d c' ∧ At root c'.tables 2 q d ∧ c'.rem 2 = c.rem 2 - capped (c.rem 2) := by
  obtain ⟨p, tables, c₁, htable, hloop, rfl⟩ := turnWith_eq_some _ hturn
  have hi := pageIdx_lt (2 + 1) c.vbase
  obtain ⟨hsound, hgrown, hnext⟩ := returnPtOrAlloc_inv hroot h.sound hat hi htable
  have hbelow := h.grown hsound hgrown
  have hat' : At root tables 2 q d := hgrown.at_of hat
  suffices hc₁ : Below root s d c₁ ∧ At root c₁.tables 2 q d from
    ⟨hc₁.1.close _, hc₁.2, Function.update_self 2 (c.rem 2 - capped (c.rem 2)) c₁.rem⟩
  cases hnext (h.not_leaf hd hat hi) with
  | inl herr =>
      obtain ⟨-, rfl⟩ := loop_none (fun c => if_pos herr) hloop
      exact ⟨hbelow, hat'⟩
  | inr hptr =>
      obtain ⟨t, hp, hat₁⟩ := hptr
      have hdigit : (d * 512 + pageIdx (2 + 1) c.vbase) / 512 = d := by omega
      have hinv := Run.loop_inv
        (I := fun _ c₂ => Below root s d c₂ ∧ At root c₂.tables 2 q d ∧
          At root c₂.tables 1 t (d * 512 + pageIdx (2 + 1) c.vbase))
        (fun _ _ c₂ c₃ hc₂ hput => by
          obtain ⟨hbelow₂, hatq, hatt⟩ := hc₂
          obtain ⟨hbelow₃, -, hats⟩ := hbelow₂.put hflags hatt hdigit hp hput
          exact ⟨hbelow₃, hats _ _ _ (by decide) hatq, hats _ _ _ le_rfl hatt⟩)
        ⟨hbelow, hat', hat₁⟩ hloop
      exact ⟨hinv.1, hinv.2.1⟩

/-- The loop over a table of the third level has nothing to set once no entries remain. -/
theorem turn_two_rest (h : Below root s d c) (hroot : 4096 ∣ root) {flags q a : ℕ} (hrem : c.rem 2 = 0)
    (hat : At root c.tables 2 q a)
    (hturn : turnWith returnPtOrAlloc 2 capped (putEntry 2 flags) (directMap.ptr q) c = some c') :
    Below root s d c' ∧ At root c'.tables 2 q a ∧ c'.rem 2 = 0 := by
  obtain ⟨p, tables, c₁, htable, hloop, rfl⟩ := turnWith_eq_some _ hturn
  obtain ⟨hsound, hgrown, -⟩ := returnPtOrAlloc_inv hroot h.sound hat (pageIdx_lt (2 + 1) c.vbase) htable
  rw [hrem] at hloop ⊢
  obtain rfl := Option.some_inj.1 hloop
  exact ⟨(h.grown hsound hgrown).close _, hgrown.at_of hat, Function.update_self 2 0 c.rem⟩

/-- A turn of the loop over the top table, up to the loop over the table `q` of the third level.
Without a frame for that table there is no such loop, and the turn returns only when it has no
rounds. -/
theorem turn_three (h : Below root s d c) (hroot : 4096 ∣ root) {flags : ℕ}
    (hturn : largeBody returnPtOrAlloc flags (physToVirtPm root) c = some c') :
    ∃ tables c₁, Below root s d { c with tables := tables } ∧ c'.rem 2 = c₁.rem 2 ∧
      (Below root s d c₁ → Below root s d c') ∧
      (c.rem 3 = 0 ∧ c₁ = { c with tables := tables } ∨
        ∃ q, At root tables 2 q (pageIdx 4 c.vbase) ∧
          Run.loop (fun _ => turnWith returnPtOrAlloc 2 capped (putEntry 2 (flags ||| ptFlagPagesize))
            (directMap.ptr q)) (c.rem 3) { c with tables := tables } = some c₁) := by
  obtain ⟨p, tables, c₁, htable, hloop, rfl⟩ := turnWith_eq_some _ hturn
  have htop : At root c.tables 3 root 0 := Reach.root
  obtain ⟨hsound, hgrown, hnext⟩ :=
    returnPtOrAlloc_inv hroot h.sound htop (pageIdx_lt (3 + 1) c.vbase) htable
  refine ⟨tables, c₁, h.grown hsound hgrown,
    Function.update_of_ne (show 2 ≠ 3 by decide) (c.rem 3 - capped (c.rem 3)) c₁.rem,
    fun hc₁ => hc₁.close _, ?_⟩
  cases hnext (decode_three (c.tables.mem root (pageIdx (3 + 1) c.vbase))) with
  | inl herr =>
      have hnone : ∀ c, turnWith returnPtOrAlloc 2 capped (putEntry 2 (flags ||| ptFlagPagesize)) p c = none := by
        intro c
        rw [turnWith, returnPtOrAlloc, if_pos herr]
        rfl
      exact Or.inl (loop_none hnone hloop)
  | inr hptr =>
      obtain ⟨q, hp, hatq⟩ := hptr
      rw [hp] at hloop
      rw [Nat.zero_mul, Nat.zero_add] at hatq
      exact Or.inr ⟨q, hatq, hloop⟩

/-- The first turn of the loop over the top table sets all entries. -/
theorem turn_first (h : Below root s d c) (hroot : 4096 ∣ root) {flags : ℕ}
    (hflags : IsLeafFlags 1 (flags ||| ptFlagPagesize)) (hd : pageIdx 4 c.vbase = d)
    (hrem : c.rem 2 ≤ 512 * c.rem 3)
    (hturn : largeBody returnPtOrAlloc flags (physToVirtPm root) c = some c') :
    Below root s d c' ∧ c'.rem 2 = 0 := by
  have hd' : d < 512 := hd ▸ pageIdx_lt 4 c.vbase
  obtain ⟨tables, c₁, hbelow, hrem', hclose, ⟨hzero, rfl⟩ | ⟨q, hatq, hloop⟩⟩ := h.turn_three hroot hturn
  · refine ⟨hclose hbelow, ?_⟩
    rw [hrem']
    change c.rem 2 = 0
    omega
  · rw [hd] at hatq
    have hinv := Run.loop_inv
      (I := fun j c₂ => Below root s d c₂ ∧ At root c₂.tables 2 q d ∧ c₂.rem 2 = c.rem 2 - 512 * j)
      (fun j _ c₂ c₃ hc₂ hturn₂ => by
        obtain ⟨hbelow₂, hatq₂, hrem₂⟩ := hc₂
        obtain ⟨hbelow₃, hatq₃, hrem₃⟩ := hbelow₂.turn_two hroot hd' hflags hatq₂ hturn₂
        refine ⟨hbelow₃, hatq₃, ?_⟩
        rw [hrem₃, hrem₂, capped_eq_min]
        omega)
      ⟨hbelow, hatq, rfl⟩ hloop
    refine ⟨hclose hinv.1, ?_⟩
    rw [hrem', hinv.2.2]
    omega

/-- Each further turn finds no entry to set. -/
theorem turn_rest (h : Below root s d c) (hroot : 4096 ∣ root) {flags : ℕ} (hrem : c.rem 2 = 0)
    (hturn : largeBody returnPtOrAlloc flags (physToVirtPm root) c = some c') :
    Below root s d c' ∧ c'.rem 2 = 0 := by
  obtain ⟨tables, c₁, hbelow, hrem', hclose, ⟨-, rfl⟩ | ⟨q, hatq, hloop⟩⟩ := h.turn_three hroot hturn
  · exact ⟨hclose hbelow, hrem'.trans hrem⟩
  · have hinv := Run.loop_inv
      (I := fun _ c₂ => Below root s d c₂ ∧ At root c₂.tables 2 q (pageIdx 4 c.vbase) ∧ c₂.rem 2 = 0)
      (fun _ _ c₂ c₃ hc₂ hturn₂ => hc₂.1.turn_two_rest hroot hc₂.2.2 hc₂.2.1 hturn₂)
      ⟨hbelow, hatq, hrem⟩ hloop
    exact ⟨hclose hinv.1, hrem'.trans hinv.2.2⟩

end Below

namespace Window

variable {root vaddr paddr size flags : ℕ} {s s₁ : Tables}

/-- The tables in front of the loops.  All entries of the first table of the third level are among those
that the loops come to. -/
theorem below (h : Window 1 root s vaddr paddr size) (hsize : 2 ^ 39 < size) (flags : ℕ) :
    Below root s (slot 1 vaddr / 512 ^ 2) ((pageCtx vaddr paddr size flags).cursor s) where
  sound := h.sound
  frame := fun _ _ _ => rfl
  low := by
    intro n hn hd x hx
    have hfind : find root s n = some x := hx
    have hlevel := find_level hfind
    by_contra hle
    have htwo : x.1 = 2 := by omega
    have hF : slot 1 vaddr < 512 ^ 3 := by
      rw [slot_eq (by decide)]
      exact Nat.mod_lt _ (by decide)
    -- the first place below the same entry
    obtain ⟨j, hj, hdigit⟩ : ∃ j < 512, (slot 1 vaddr / 512 + j) % 512 = n / 512 ^ 2 % 512 :=
      ⟨(n / 512 ^ 2 % 512 + 512 - slot 1 vaddr / 512 % 512) % 512, by omega, by omega⟩
    have hplace : addDigits 512 3 (slot 1 vaddr) (512 * j) =
        (slot 1 vaddr / 512 ^ 2 * 512 + n / 512 ^ 2 % 512) * 512 + slot 1 vaddr % 512 := by
      have hj' : 512 * j / 512 = j := Nat.mul_div_cancel_left _ (by decide)
      have hj'' : j / 512 = 0 := Nat.div_eq_of_lt hj
      simp only [addDigits, hj', hj'', hdigit]
      omega
    have hsame : find root s (addDigits 512 3 (slot 1 vaddr) (512 * j) * 512) = some x :=
      lookup_congr hfind (by
        rw [htwo, hplace]
        omega)
    have hlt := addDigits_lt (b := 512) (by decide) 3 (slot 1 vaddr) (512 * j)
    have hone : x.1 ≤ 1 := h.clear (512 * j) (by omega) (addDigits 512 3 (slot 1 vaddr) (512 * j) * 512)
      (by omega) (Nat.mul_div_cancel _ (by decide)) x hsame
    omega
  pbase_dvd := (Nat.pow_dvd_pow 2 (by decide) : 2 ^ 12 ∣ 2 ^ 21).trans h.paddr_dvd

/-- **For more than 512 GiB** `pt_map_large` stays below the first entry of the top table. -/
theorem large_frame (h : Window 1 root s vaddr paddr size) (hsize : 2 ^ 39 < size)
    (hs₁ : ptMapLarge returnPtOrAlloc (physToVirtPm root) (pageCtx vaddr paddr size flags) s = some s₁)
    {n : ℕ} (hn : n < 2 ^ 36) (hne : n / 512 ^ 3 ≠ slot 1 vaddr / 512 ^ 2) :
    find root s₁ n = find root s n := by
  have hrem₂ := windowRem_eq (j := 0) h.size_dvd h.size_lt (by decide) vaddr paddr flags s
  have hrem₃ := windowRem_eq (j := 1) h.size_dvd h.size_lt (by decide) vaddr paddr flags s
  have hrem : ((pageCtx vaddr paddr size flags).cursor s).rem 2 ≤
      512 * ((pageCtx vaddr paddr size flags).cursor s).rem 3 := by
    rw [hrem₂, hrem₃, Nat.pow_zero, ceilDiv_one, Nat.pow_one, Nat.ceilDiv_eq_add_pred_div]
    omega
  have hindex : pageIdx 4 vaddr = slot 1 vaddr / 512 ^ 2 := by
    have hidx := pageIdx_slot (w := 1) (k := 2) (by decide) vaddr
    have hF : slot 1 vaddr < 512 ^ 3 := by
      rw [slot_eq (by decide)]
      exact Nat.mod_lt _ (by decide)
    rw [Nat.mod_eq_of_lt (by omega)] at hidx
    exact hidx
  obtain ⟨c, hloop, rfl⟩ := Option.map_eq_some_iff.1 hs₁
  have hflags : IsLeafFlags 1 (vmaToPteFlags flags ||| ptFlagPagesize) :=
    leafFlags_leaf 1 (vmaToPteFlags_entryFlags flags)
  have hinv := Run.loop_inv
    (I := fun i c => Below root s (slot 1 vaddr / 512 ^ 2) c ∧
      (i = 0 → c = (pageCtx vaddr paddr size flags).cursor s) ∧ (0 < i → c.rem 2 = 0))
    (fun i _ c₂ c₃ hc₂ hturn => by
      obtain ⟨hbelow, hfirst, hrest⟩ := hc₂
      rcases Nat.eq_zero_or_pos i with hi | hi
      · rw [hfirst hi] at hturn hbelow
        obtain ⟨hbelow₃, hzero⟩ := hbelow.turn_first h.root_dvd hflags hindex hrem hturn
        exact ⟨hbelow₃, fun h => absurd h (Nat.succ_ne_zero i), fun _ => hzero⟩
      · obtain ⟨hbelow₃, hzero⟩ := hbelow.turn_rest h.root_dvd (hrest hi) hturn
        exact ⟨hbelow₃, fun h => absurd h (Nat.succ_ne_zero i), fun _ => hzero⟩)
    ⟨h.below hsize flags, fun _ => rfl, fun h => absurd h (Nat.lt_irrefl 0)⟩ hloop
  exact hinv.1.frame n hn hne

end Window

namespace LargeRequest

variable {root vaddr paddr size : ℕ} {s : Tables}

/-- **For more than 512 GiB** the address that is 512 GiB behind the first one is mapped by
`pt_map_norm` only. -/
theorem differs (h : LargeRequest root s vaddr paddr size) (hclear : Unobstructed root s vaddr size)
    (flags : ℕ) (hsize : 2 ^ 39 < size) : ¬ LargeAgrees root s (pageCtx vaddr paddr size flags) := by
  rintro ⟨s₁, s₂, hs₁, hs₂, heq⟩
  have h₀ := h.window_zero hclear
  have hlo := h.lo
  have hhi := h.hi
  have hvaddr := h.vaddr_dvd
  have hdvd := h.size_dvd
  unfold kernelVmmap at hlo
  have hn := pageNumber_lt (vaddr + 2 ^ 39)
  have hnumber : pageNumber (vaddr + 2 ^ 39) = slot 0 vaddr + 512 ^ 3 := by
    rw [slot_eq (by decide)]
    unfold pageNumber
    omega
  have hslot : slot 0 vaddr + 512 ^ 3 < 512 ^ 4 := by
    rw [← hnumber]
    exact hn
  have hfirst := slot_zero_eq hvaddr
  -- `pt_map_large` does not come there
  have hlarge : find root s₁ (pageNumber (vaddr + 2 ^ 39)) = none := by
    rw [(h.window_one hclear).large_frame hsize hs₁ hn (by rw [hnumber]; omega)]
    exact h.blank _ (by omega) (by omega)
  -- `pt_map_norm` does
  obtain ⟨s₂', hs₂', -, hplaced⟩ := h₀.norm_spec flags h.frames
  obtain rfl : s₂' = s₂ := Option.some_inj.1 (hs₂'.symm.trans hs₂)
  have hplace : addDigits 512 4 (slot 0 vaddr) (512 ^ 3) = slot 0 vaddr + 512 ^ 3 :=
    addDigits_eq_add (by decide) hslot fun j hj => by
      rw [Nat.mod_eq_zero_of_dvd (Nat.pow_dvd_pow 512 (show j ≤ 3 by omega)), Nat.add_zero]
      exact Nat.mod_lt _ (Nat.pow_pos (by decide))
  have hnorm := hplaced.leaf (512 ^ 3) (by omega) _ hn
    (by rw [Nat.pow_zero, Nat.div_one, hnumber]; exact hplace.symm)
  have hv := heq (vaddr + 2 ^ 39)
  rw [kptGetPhys_find h.root_dvd h.sound, kptGetPhys_find h.root_dvd h.sound] at hv
  change physOf _ (find root s₁ _) = physOf _ (find root s₂' _) at hv
  rw [hlarge, hnorm, h₀.phys_eq] at hv
  change 2 ^ 64 - 1 = _ at hv
  omega

end LargeRequest

/-- The window is at most 512 GiB long, and where the loops come to no large leaf is in the way. -/
def LargeFits (root : ℕ) (s : Tables) (vaddr size : ℕ) : Prop :=
  size ≤ 2 ^ 39 ∧ Unobstructed root s vaddr size

/-- **When the two ways agree**: when the window fits; and as long as no large leaf is in the way, in no
other case. -/
theorem largeAgrees_iff {root vaddr paddr size : ℕ} {s : Tables} (flags : ℕ)
    (h : LargeRequest root s vaddr paddr size) :
    (LargeFits root s vaddr size → LargeAgrees root s (pageCtx vaddr paddr size flags)) ∧
      (Unobstructed root s vaddr size → LargeAgrees root s (pageCtx vaddr paddr size flags) →
        LargeFits root s vaddr size) := by
  refine ⟨fun hfits => h.agrees hfits.2 flags hfits.1, fun hclear hagrees => ⟨?_, hclear⟩⟩
  by_contra hsize
  exact h.differs hclear flags (Nat.lt_of_not_le hsize) hagrees

/-- A window at the start of the virtual memory area, in blank tables. -/
theorem blankTables_request {n size : ℕ} (hn : n < 2 ^ 39) (hdvd : 2 ^ 21 ∣ size) (hpos : 0 < size)
    (hsize : size ≤ 2 ^ 46) (hframes : tablesFor 3 (size / 4096) ≤ n) :
    LargeRequest 0x1000 (blankTables n) kernelVmmap 0 size ∧
      Unobstructed 0x1000 (blankTables n) kernelVmmap size := by
  obtain ⟨hsound, hblank⟩ := blankTables_sound hn
  refine ⟨⟨by decide, hsound, by decide, Nat.dvd_zero _, hdvd, by decide, hpos, le_rfl,
    by unfold kernelVmmap; omega, fun v _ _ => hblank _, ?_⟩, ?_⟩
  · rwa [blankTables, List.length_map, List.length_range]
  · intro m _ k _ _ x hx
    cases (hblank k).symm.trans hx

/-- More than one GiB: 513 large pages, which need two tables. -/
theorem largeAgrees_gib : LargeAgrees 0x1000 (blankTables 516) (pageCtx kernelVmmap 0 0x40200000 0) := by
  have hwindow := blankTables_request (show 516 < 2 ^ 39 by decide)
    (show 2 ^ 21 ∣ 0x40200000 by decide) (by decide) (by decide) (by decide)
  exact (largeAgrees_iff 0 hwindow.1).1 ⟨by decide, hwindow.2⟩

/-- **512 GiB and one large page** more. -/
theorem large_differs :
    LargeRequest 0x1000 (blankTables 262660) kernelVmmap 0 (2 ^ 39 + 2 ^ 21) ∧
      ¬ LargeAgrees 0x1000 (blankTables 262660) (pageCtx kernelVmmap 0 (2 ^ 39 + 2 ^ 21) 0) := by
  have hwindow := blankTables_request (show 262660 < 2 ^ 39 by decide)
    (show 2 ^ 21 ∣ 2 ^ 39 + 2 ^ 21 by decide) (by decide) (by decide) (by decide)
  exact ⟨hwindow.1, hwindow.1.differs hwindow.2 0 (by decide)⟩

end Vmalloc

end SyncKernel
