import Mathlib.Data.Set.Basic
import Routerd.MirrorHooks

/-!
# Taps under names that are not prefixes of one another

While no node name and no tap name in use is a prefix of another one, the comparisons
of the plugin are equality, whatever lies behind the names in memory. Live entries
then have open descriptors, and two of them share a descriptor exactly if they have
the same name.
-/

namespace Routerd
open NumeralText

def PrefixFree (S : Set Text) : Prop := ∀ a ∈ S, ∀ b ∈ S, a <+: b → a = b

/-- The names of nodes and taps that commands may use. -/
structure MirrorNames where
  nodes : Set Text
  taps : Set Text
  nodes_prefixFree : PrefixFree nodes
  taps_prefixFree : PrefixFree taps

theorem nameMatches_iff {S : Set Text} (hS : PrefixFree S) (behind : Text → Bool)
    {stored query : Text} (hs : stored ∈ S) (hq : query ∈ S) :
    nameMatches behind stored query = true ↔ stored = query := by
  constructor
  · intro h
    rcases Bool.or_eq_true_iff.mp h with hprefix | hover
    · exact (hS query hq stored hs (List.isPrefixOf_iff_prefix.mp hprefix)).symm
    · have hprefix := (Bool.and_eq_true_iff.mp hover).1
      exact hS stored hs query hq (List.isPrefixOf_iff_prefix.mp hprefix)
  · rintro rfl
    exact nameMatches_self behind stored

/-! ### The loops over taps -/

/-- An entry with an open descriptor, in any context. -/
def LiveTap (contexts : ContextSlot → Option MirrorContext) (e : MirrorTap) : Prop :=
  ∃ i ctx, contexts i = some ctx ∧ e ∈ ctx.taps ∧ 0 < e.fd

section Loops

variable {names : MirrorNames} {contexts : ContextSlot → Option MirrorContext}
variable {b : Behind} {i : ContextSlot} {ctx : MirrorContext} {tap : Text}

theorem mem_of_mem_zipIdx {taps : List MirrorTap} {x : MirrorTap × ℕ} (h : x ∈ taps.zipIdx) :
    x.1 ∈ taps :=
  List.mem_of_getElem? (List.mem_zipIdx_iff_getElem?.mp h)

theorem findTap_cases (b : Behind) (contexts : ContextSlot → Option MirrorContext)
    (name : Text) :
    (∃ e i ctx j, findTap b contexts name = some e ∧ contexts i = some ctx ∧ e ∈ ctx.taps ∧
        tapHit b i name j e = true) ∨
      (findTap b contexts name = none ∧ ∀ i ctx e, contexts i = some ctx → e ∈ ctx.taps →
        ∃ j, tapHit b i name j e = false) := by
  cases hfind : findTap b contexts name with
  | some e =>
    obtain ⟨-, i, -, -, hslot, -⟩ := List.findSome?_eq_some_iff.mp hfind
    obtain ⟨ctx, hctx, hentry⟩ := Option.bind_eq_some_iff.mp hslot
    obtain ⟨x, hx, rfl⟩ := Option.map_eq_some_iff.mp hentry
    have hhit := List.find?_some hx
    exact Or.inl ⟨x.1, i, ctx, x.2, rfl, hctx, mem_of_mem_zipIdx (List.mem_of_find?_eq_some hx),
      hhit⟩
  | none =>
    refine Or.inr ⟨rfl, fun i ctx e hctx he => ?_⟩
    have hslot := List.findSome?_eq_none_iff.mp hfind i (List.mem_finRange i)
    rw [hctx, Option.bind_some, Option.map_eq_none_iff] at hslot
    obtain ⟨j, hj⟩ := List.getElem?_of_mem he
    have hmem : (e, j) ∈ ctx.taps.zipIdx := List.mem_zipIdx_iff_getElem?.mpr hj
    exact ⟨j, Bool.eq_false_iff.mpr (List.find?_eq_none.mp hslot (e, j) hmem)⟩

theorem tapHit_iff (htap : tap ∈ names.taps) {e : MirrorTap}
    (he : 0 < e.fd → ∃ n ∈ names.taps, e.name = some n) (j : ℕ) :
    tapHit b i tap j e = true ↔ 0 < e.fd ∧ e.name = some tap := by
  rw [tapHit, Bool.and_eq_true_iff, decide_eq_true_iff]
  refine and_congr_right fun hpos => ?_
  obtain ⟨n, hn, hname⟩ := he hpos
  rw [hname, Option.any_some, nameMatches_iff names.taps_prefixFree _ hn htap,
    Option.some_inj]

/-- Without prefixes the deletion is by name. -/
def eraseTap (tap : Text) (e : MirrorTap) : MirrorTap :=
  if 0 < e.fd ∧ e.name = some tap then ⟨-1, none⟩ else e

theorem deleteTaps_eq_map (htap : tap ∈ names.taps)
    (he : ∀ e ∈ ctx.taps, 0 < e.fd → ∃ n ∈ names.taps, e.name = some n) :
    deleteTaps (tapHit b i tap) ctx.taps = ctx.taps.map (eraseTap tap) := by
  refine List.ext_getElem? fun j => ?_
  rw [deleteTaps, List.getElem?_mapIdx, List.getElem?_map]
  cases hj : ctx.taps[j]? with
  | none => rfl
  | some e =>
    have hhit := tapHit_iff (b := b) (i := i) htap (he e (List.mem_of_getElem? hj)) j
    rw [Option.map_some, Option.map_some, eraseTap]
    congr 1
    by_cases h : 0 < e.fd ∧ e.name = some tap
    · rw [if_pos (hhit.mpr h), if_pos h]
    · rw [if_neg (fun hc => h (hhit.mp hc)), if_neg h]

private theorem foldl_lastHit (hit : ℕ → MirrorTap → Bool) (l : List (MirrorTap × ℕ)) (init : ℤ) :
    ((∀ x ∈ l, hit x.2 x.1 = false) ∧
        l.foldl (fun fd x => if hit x.2 x.1 then x.1.fd else fd) init = init) ∨
      ∃ x ∈ l, hit x.2 x.1 = true ∧
        l.foldl (fun fd x => if hit x.2 x.1 then x.1.fd else fd) init = x.1.fd := by
  induction l generalizing init with
  | nil => exact Or.inl ⟨nofun, rfl⟩
  | cons x rest ih =>
    rw [List.foldl_cons]
    cases hx : hit x.2 x.1 with
    | true =>
      rcases ih x.1.fd with ⟨-, heq⟩ | ⟨y, hy, hhit, heq⟩
      · exact Or.inr ⟨x, List.mem_cons_self, hx, heq⟩
      · exact Or.inr ⟨y, List.mem_cons_of_mem x hy, hhit, heq⟩
    | false =>
      rcases ih init with ⟨hnone, heq⟩ | ⟨y, hy, hhit, heq⟩
      · refine Or.inl ⟨fun y hy => ?_, heq⟩
        rcases List.mem_cons.mp hy with rfl | hy
        · exact hx
        · exact hnone y hy
      · exact Or.inr ⟨y, List.mem_cons_of_mem x hy, hhit, heq⟩

theorem closeFd_of_notMem {fds : List ℕ} {fd : ℤ} (h : ∀ g ∈ fds, (g : ℤ) ≠ fd) :
    closeFd fds fd = fds :=
  List.filter_eq_self.mpr fun g hg => decide_eq_true (h g hg)

/-- The descriptor a tap is opened with, if the kernel grants both calls. -/
def TunKernel.opens (kernel : TunKernel) (fds : List ℕ) : Option ℕ :=
  if kernel.tunSetIff then kernel.openTun fds else none

theorem getOrOpenTapfd_cases (b : Behind) (kernel : TunKernel) (v : TapMirror) (name : Text) :
    (∃ e, findTap b v.contexts name = some e ∧
        getOrOpenTapfd b kernel v name = (v.openFds, e.fd)) ∨
      (findTap b v.contexts name = none ∧ kernel.opens v.openFds = none ∧
        getOrOpenTapfd b kernel v name = (v.openFds, (getOrOpenTapfd b kernel v name).2) ∧
        (getOrOpenTapfd b kernel v name).2 < 0) ∨
      (findTap b v.contexts name = none ∧ ∃ g, kernel.opens v.openFds = some g ∧ g ∉ v.openFds ∧
        getOrOpenTapfd b kernel v name = (g :: v.openFds, (g : ℤ))) := by
  have hfailed : (-1 : ℤ) < 0 ∧ (-2 : ℤ) < 0 := by decide
  unfold getOrOpenTapfd TunKernel.opens
  cases findTap b v.contexts name with
  | some e => exact Or.inl ⟨e, rfl, rfl⟩
  | none =>
    cases hopen : kernel.openTun v.openFds with
    | none => exact Or.inr (Or.inl ⟨rfl, by simp, rfl, hfailed.1⟩)
    | some g =>
      have hfresh := kernel.fresh _ g hopen
      cases kernel.tunSetIff with
      | true => exact Or.inr (Or.inr ⟨rfl, g, rfl, hfresh, rfl⟩)
      | false =>
        have hclosed : closeFd (g :: v.openFds) g = v.openFds := by
          have hrest : closeFd v.openFds g = v.openFds :=
            closeFd_of_notMem fun g' hg' hc => hfresh (Nat.cast_inj.mp hc ▸ hg')
          rw [closeFd, List.filter_cons_of_neg (by simp)]
          exact hrest
        exact Or.inr (Or.inl ⟨rfl, rfl, by simp [hclosed], hfailed.2⟩)

theorem getOrOpenTapfd_keeps (b : Behind) (kernel : TunKernel) (v : TapMirror) (name : Text)
    {g : ℕ} (hg : g ∈ v.openFds) : g ∈ (getOrOpenTapfd b kernel v name).1 := by
  rcases getOrOpenTapfd_cases b kernel v name with ⟨e, -, heq⟩ | ⟨-, -, heq, -⟩ | ⟨-, g', -, -, heq⟩ <;>
    rw [heq]
  · exact hg
  · exact hg
  · exact List.mem_cons_of_mem g' hg

theorem LiveTap.of_update {c : MirrorContext} {e : MirrorTap}
    (h : LiveTap (Function.update contexts i (some c)) e) :
    (e ∈ c.taps ∧ 0 < e.fd) ∨
      ∃ j ≠ i, ∃ c', contexts j = some c' ∧ e ∈ c'.taps ∧ 0 < e.fd := by
  obtain ⟨j, c', hj, hmem, hpos⟩ := h
  rcases PartialInverse.update_some_eq_some hj with ⟨-, rfl⟩ | ⟨hji, hj⟩
  · exact Or.inl ⟨hmem, hpos⟩
  · exact Or.inr ⟨j, hji, c', hj, hmem, hpos⟩

theorem LiveTap.of_addTap {fd : ℤ} {tap : Text} {e : MirrorTap} (hctx : contexts i = some ctx)
    (h : LiveTap (Function.update contexts i (some (ctx.addTap fd tap))) e) :
    LiveTap contexts e ∨ (e = ⟨fd, some tap⟩ ∧ 0 < fd) := by
  rcases h.of_update with ⟨hmem, hpos⟩ | ⟨j, -, c, hc, hmem, hpos⟩
  · rcases List.mem_append.mp hmem with hmem | hmem
    · exact Or.inl ⟨i, ctx, hctx, hmem, hpos⟩
    · rw [List.mem_singleton.mp hmem] at hpos ⊢
      exact Or.inr ⟨rfl, hpos⟩
  · exact Or.inl ⟨j, c, hc, hmem, hpos⟩

theorem deletedFd_cases (hit : ℕ → MirrorTap → Bool) (taps : List MirrorTap) :
    ((∀ e ∈ taps, ∃ j, hit j e = false) ∧ deletedFd hit taps = 0) ∨
      ∃ e ∈ taps, ∃ j, hit j e = true ∧ deletedFd hit taps = e.fd := by
  rcases foldl_lastHit hit taps.zipIdx 0 with ⟨hnone, heq⟩ | ⟨x, hx, hhit, heq⟩
  · refine Or.inl ⟨fun e he => ?_, heq⟩
    obtain ⟨j, hj⟩ := List.getElem?_of_mem he
    exact ⟨j, hnone (e, j) (List.mem_zipIdx_iff_getElem?.mpr hj)⟩
  · exact Or.inr ⟨x.1, mem_of_mem_zipIdx hx, x.2, hhit, heq⟩

end Loops

/-! ### The invariant -/

/-- What holds of names, entries and descriptors while commands use these names. -/
structure TapEntries (names : MirrorNames) (contexts : ContextSlot → Option MirrorContext)
    (openFds : List ℕ) : Prop where
  node : ∀ i ctx, contexts i = some ctx → ctx.targetNodeName ∈ names.nodes
  name : ∀ e, LiveTap contexts e → ∃ n ∈ names.taps, e.name = some n
  isOpen : ∀ e, LiveTap contexts e → ∃ g ∈ openFds, (g : ℤ) = e.fd
  shared : ∀ e e', LiveTap contexts e → LiveTap contexts e' → (e.fd = e'.fd ↔ e.name = e'.name)

namespace TapEntries

variable {names : MirrorNames} {contexts : ContextSlot → Option MirrorContext}
variable {openFds : List ℕ} {i : ContextSlot} {ctx : MirrorContext} {node tap : Text}
variable {v : TapMirror}

theorem init (names : MirrorNames) (openFds : List ℕ) :
    TapEntries names (fun _ => none) openFds where
  node _ _ := nofun
  name := by
    rintro e ⟨i, ctx, hctx, -⟩
    cases hctx
  isOpen := by
    rintro e ⟨i, ctx, hctx, -⟩
    cases hctx
  shared := by
    rintro e e' ⟨i, ctx, hctx, -⟩
    cases hctx

theorem mono (h : TapEntries names contexts openFds)
    {contexts' : ContextSlot → Option MirrorContext} {openFds' : List ℕ}
    (hnode : ∀ j c, contexts' j = some c → c.targetNodeName ∈ names.nodes)
    (hlive : ∀ e, LiveTap contexts' e → LiveTap contexts e)
    (hopen : ∀ e, LiveTap contexts' e → ∀ g ∈ openFds, (g : ℤ) = e.fd → g ∈ openFds') :
    TapEntries names contexts' openFds' where
  node := hnode
  name e he := h.name e (hlive e he)
  isOpen e he := by
    obtain ⟨g, hg, hfd⟩ := h.isOpen e (hlive e he)
    exact ⟨g, hopen e he g hg hfd, hfd⟩
  shared e e' he he' := h.shared e e' (hlive e he) (hlive e' he')

theorem findTap_some (h : TapEntries names contexts openFds) (htap : tap ∈ names.taps)
    {b : Behind} {e : MirrorTap} (hfind : findTap b contexts tap = some e) :
    LiveTap contexts e ∧ e.name = some tap := by
  rcases findTap_cases b contexts tap with ⟨e', i, ctx, j, hfind', hctx, he, hhit⟩ | ⟨hnone, -⟩
  · rw [hfind] at hfind'
    cases hfind'
    have hpos : 0 < e.fd := of_decide_eq_true (Bool.and_eq_true_iff.mp hhit).1
    have hlive : LiveTap contexts e := ⟨i, ctx, hctx, he, hpos⟩
    exact ⟨hlive, ((tapHit_iff htap (fun _ => h.name e hlive) j).mp hhit).2⟩
  · rw [hfind] at hnone
    cases hnone

theorem findTap_none (h : TapEntries names contexts openFds) (htap : tap ∈ names.taps)
    {b : Behind} (hfind : findTap b contexts tap = none) {e : MirrorTap}
    (he : LiveTap contexts e) : e.name ≠ some tap := by
  intro hname
  rcases findTap_cases b contexts tap with ⟨e', -, -, -, hfind', -⟩ | ⟨-, hnone⟩
  · rw [hfind] at hfind'
    cases hfind'
  · obtain ⟨i, ctx, hctx, hmem, hpos⟩ := id he
    obtain ⟨j, hj⟩ := hnone i ctx e hctx hmem
    rw [(tapHit_iff htap (fun _ => h.name e he) j).mpr ⟨hpos, hname⟩] at hj
    cases hj

theorem getTapfd_neg_iff (h : TapEntries names contexts openFds) (htap : tap ∈ names.taps)
    (b : Behind) :
    getTapfd b contexts tap < 0 ↔ ∀ e, LiveTap contexts e → e.name ≠ some tap := by
  unfold getTapfd
  cases hfind : findTap b contexts tap with
  | none => exact ⟨fun _ e he => h.findTap_none htap hfind he, fun _ => by decide⟩
  | some e =>
    obtain ⟨hlive, hname⟩ := h.findTap_some htap hfind
    obtain ⟨-, -, -, -, hpos⟩ := id hlive
    exact ⟨fun hneg => absurd hneg (by simpa using hpos.le), fun hnone =>
      absurd hname (hnone e hlive)⟩

theorem getOrOpenTapfd_live (h : TapEntries names v.contexts v.openFds) (htap : tap ∈ names.taps)
    (b : Behind) (kernel : TunKernel) (hpos : 0 < (getOrOpenTapfd b kernel v tap).2) :
    (∃ g ∈ (getOrOpenTapfd b kernel v tap).1, (g : ℤ) = (getOrOpenTapfd b kernel v tap).2) ∧
      ∀ e, LiveTap v.contexts e →
        (e.fd = (getOrOpenTapfd b kernel v tap).2 ↔ e.name = some tap) := by
  rcases getOrOpenTapfd_cases b kernel v tap with
    ⟨e₀, hfind, heq⟩ | ⟨-, -, -, hneg⟩ | ⟨hfind, g, -, hg, heq⟩
  · obtain ⟨hlive₀, hname₀⟩ := h.findTap_some htap hfind
    rw [heq]
    refine ⟨h.isOpen e₀ hlive₀, fun e he => ?_⟩
    rw [← hname₀]
    exact h.shared e e₀ he hlive₀
  · omega
  · rw [heq]
    refine ⟨⟨g, List.mem_cons_self, rfl⟩, fun e he => ?_⟩
    have hfd : e.fd ≠ g := by
      intro hc
      obtain ⟨g', hg', hfd'⟩ := h.isOpen e he
      rw [hc, Nat.cast_inj] at hfd'
      exact hg (hfd' ▸ hg')
    exact ⟨fun hc => absurd hc hfd, fun hc => absurd hc (h.findTap_none htap hfind he)⟩

/-- A tap entered in a context: its descriptor is the one of the live entries of that
name, or a new one where there is none. -/
theorem add (h : TapEntries names contexts openFds) (hctx : contexts i = some ctx)
    (htap : tap ∈ names.taps) (b : Behind) (kernel : TunKernel)
    (hv : v.contexts = contexts) (hfds : v.openFds = openFds) :
    TapEntries names (tapMirrorContextAddNewTap b kernel v i ctx tap).contexts
      (tapMirrorContextAddNewTap b kernel v i ctx tap).openFds := by
  subst hv hfds
  have hlive : ∀ e, LiveTap (tapMirrorContextAddNewTap b kernel v i ctx tap).contexts e →
      LiveTap v.contexts e ∨ (e = ⟨(getOrOpenTapfd b kernel v tap).2, some tap⟩ ∧
        0 < (getOrOpenTapfd b kernel v tap).2) := fun e he => LiveTap.of_addTap hctx he
  have hnew := h.getOrOpenTapfd_live htap b kernel
  constructor
  · intro j c hj
    rcases PartialInverse.update_some_eq_some hj with ⟨-, rfl⟩ | ⟨-, hj⟩
    · exact h.node i ctx hctx
    · exact h.node j c hj
  · intro e he
    rcases hlive e he with he | ⟨rfl, -⟩
    · exact h.name e he
    · exact ⟨tap, htap, rfl⟩
  · intro e he
    rcases hlive e he with he | ⟨rfl, hpos⟩
    · obtain ⟨g, hg, hfd⟩ := h.isOpen e he
      exact ⟨g, getOrOpenTapfd_keeps b kernel v tap hg, hfd⟩
    · exact (hnew hpos).1
  · intro e e' he he'
    rcases hlive e he with he | ⟨rfl, hpos⟩ <;> rcases hlive e' he' with he' | ⟨rfl, hpos'⟩
    · exact h.shared e e' he he'
    · exact (hnew hpos').2 e he
    · exact ⟨fun hc => ((hnew hpos).2 e' he').mp hc.symm |>.symm,
        fun hc => (((hnew hpos).2 e' he').mpr hc.symm).symm⟩
    · exact ⟨fun _ => rfl, fun _ => rfl⟩

theorem search_some (h : TapEntries names v.contexts v.openFds) (hnode : node ∈ names.nodes)
    {b : Behind} (hfound : searchContexts b v node = some (i, ctx)) :
    v.contexts i = some ctx ∧ ctx.targetNodeName = node := by
  obtain ⟨hctx, hmatch⟩ := searchContexts_eq_some hfound
  exact ⟨hctx, (nameMatches_iff names.nodes_prefixFree _ (h.node i ctx hctx) hnode).mp hmatch⟩

theorem hookedState (h : TapEntries names v.contexts v.openFds) (hnode : node ∈ names.nodes)
    (i : ContextSlot) (fn : NodeFn) :
    TapEntries names (hookedState v i node fn).contexts v.openFds := by
  refine h.mono (fun j c hj => ?_) (fun e he => ?_) fun _ _ _ hg _ => hg
  · rcases (SlotTable.Holds.of_write ⟨j, hj⟩) with rfl | ⟨k, -, hk⟩
    · exact hnode
    · exact h.node k c hk
  · rcases he.of_update with ⟨hmem, hpos⟩ | ⟨j, -, c, hc, hmem, hpos⟩
    · rw [List.eq_of_mem_replicate hmem] at hpos
      cases hpos
    · exact ⟨j, c, hc, hmem, hpos⟩

theorem enable (h : TapEntries names v.contexts v.openFds) (hnode : node ∈ names.nodes)
    (htap : tap ∈ names.taps) (b : Behind) (kernel : TunKernel) :
    TapEntries names (enableTapMirror b kernel v node tap).1.contexts
      (enableTapMirror b kernel v node tap).1.openFds := by
  rcases enableTapMirror_cases b kernel v node tap with
    heq | ⟨i, ctx, hfound, heq⟩ | ⟨i, fn, -, -, -, heq⟩ <;> rw [heq]
  · exact h
  · exact h.add (searchContexts_eq_some hfound).1 htap b kernel rfl rfl
  · have hhooked := hookedState (v := setEnabled v) h hnode i fn
    exact hhooked.add (Function.update_self ..) htap b kernel rfl rfl

theorem mem_of_live {i : ContextSlot} {ctx : MirrorContext}
    (h : TapEntries names v.contexts v.openFds) (hctx : v.contexts i = some ctx) :
    ∀ e ∈ ctx.taps, 0 < e.fd → ∃ n ∈ names.taps, e.name = some n :=
  fun e he hpos => h.name e ⟨i, ctx, hctx, he, hpos⟩

end TapEntries

def MirrorContext.dropTap (ctx : MirrorContext) (tap : Text) : MirrorContext :=
  let taps := ctx.taps.map (eraseTap tap)
  { ctx with
    taps := taps
    requestToFree := ctx.requestToFree || taps.all fun e => decide (e.fd ≤ 0) }

theorem mem_dropTap {ctx : MirrorContext} {tap : Text} {e : MirrorTap} (hpos : 0 < e.fd) :
    e ∈ (ctx.dropTap tap).taps ↔ e ∈ ctx.taps ∧ e.name ≠ some tap := by
  constructor
  · intro he
    obtain ⟨e₀, he₀, rfl⟩ := List.mem_map.mp he
    unfold eraseTap at hpos ⊢
    split_ifs with herase
    · rw [if_pos herase] at hpos
      cases hpos
    · rw [if_neg herase] at hpos
      exact ⟨he₀, fun hname => herase ⟨hpos, hname⟩⟩
  · rintro ⟨he, hname⟩
    exact List.mem_map.mpr ⟨e, he, if_neg fun hc => hname hc.2⟩

/-- What a disable does while names are not prefixes of one another. `fd` is the
descriptor it will close, 0 if the context of the node had no live entry of the name. -/
structure TapDropped (v w : TapMirror) (node tap : Text) (i : ContextSlot)
    (ctx : MirrorContext) (fd : ℤ) : Prop where
  context : v.contexts i = some ctx
  name : ctx.targetNodeName = node
  dropped : w.contexts = Function.update v.contexts i (some (ctx.dropTap tap))
  function : w.function = v.function
  descriptor : (fd = 0 ∧ ∀ e ∈ ctx.taps, 0 < e.fd → e.name ≠ some tap) ∨
    ∃ e ∈ ctx.taps, 0 < e.fd ∧ e.name = some tap ∧ fd = e.fd
  closed : (∀ e, LiveTap w.contexts e → e.name ≠ some tap) → w.openFds = closeFd v.openFds fd
  kept : (∃ e, LiveTap w.contexts e ∧ e.name = some tap) → w.openFds = v.openFds

theorem LiveTap.of_dropTap {contexts : ContextSlot → Option MirrorContext} {i : ContextSlot}
    {ctx : MirrorContext} {tap : Text} (hctx : contexts i = some ctx) {e : MirrorTap}
    (he : LiveTap (Function.update contexts i (some (ctx.dropTap tap))) e) :
    LiveTap contexts e := by
  rcases he.of_update with ⟨hmem, hpos⟩ | ⟨j, -, c, hc, hmem, hpos⟩
  · exact ⟨i, ctx, hctx, ((mem_dropTap hpos).mp hmem).1, hpos⟩
  · exact ⟨j, c, hc, hmem, hpos⟩

namespace TapEntries

variable {names : MirrorNames} {v : TapMirror} {node tap : Text}

theorem dropTap (h : TapEntries names v.contexts v.openFds) {i : ContextSlot}
    {ctx : MirrorContext} (hctx : v.contexts i = some ctx) (tap : Text) :
    TapEntries names (Function.update v.contexts i (some (ctx.dropTap tap))) v.openFds := by
  refine h.mono (fun j c hj => ?_) (fun e he => he.of_dropTap hctx) fun _ _ _ hg _ => hg
  rcases (SlotTable.Holds.of_write ⟨j, hj⟩) with rfl | ⟨k, -, hk⟩
  · exact h.node i ctx hctx
  · exact h.node k c hk

/-- A disable of a node without a context does nothing; otherwise it drops the tap from
the node's own context. -/
theorem disable_cases (h : TapEntries names v.contexts v.openFds) (hnode : node ∈ names.nodes)
    (htap : tap ∈ names.taps) (b : Behind) :
    ((∀ i ctx, v.contexts i = some ctx → ctx.targetNodeName ≠ node) ∧
        disableTapMirror b v node tap = v) ∨
      ∃ i ctx fd, TapDropped v (disableTapMirror b v node tap) node tap i ctx fd := by
  rcases disableTapMirror_cases b v node tap with ⟨hnone, heq⟩ | ⟨i, ctx, hfound, heq⟩
  · exact Or.inl ⟨fun i ctx hctx => searchContexts_eq_none hnone hctx, heq⟩
  · obtain ⟨hctx, hname⟩ := h.search_some hnode hfound
    have hnames := h.mem_of_live hctx
    have hdrop : disabledContext b i ctx tap = ctx.dropTap tap := by
      rw [disabledContext, deleteTaps_eq_map htap hnames]
      rfl
    rw [hdrop] at heq
    have hneg := (h.dropTap hctx tap).getTapfd_neg_iff htap b
    refine Or.inr ⟨i, ctx, deletedFd (tapHit b i tap) ctx.taps, hctx, hname, by rw [heq],
      by rw [heq], ?_, fun hall => ?_, fun ⟨e, he, hetap⟩ => ?_⟩
    · rcases deletedFd_cases (tapHit b i tap) ctx.taps with ⟨hno, hfd⟩ | ⟨e, he, j, hhit, hfd⟩
      · refine Or.inl ⟨hfd, fun e he hpos hetap => ?_⟩
        obtain ⟨j, hj⟩ := hno e he
        rw [(tapHit_iff htap (hnames e he) j).mpr ⟨hpos, hetap⟩] at hj
        cases hj
      · obtain ⟨hpos, hetap⟩ := (tapHit_iff htap (hnames e he) j).mp hhit
        exact Or.inr ⟨e, he, hpos, hetap, hfd⟩
    · rw [heq] at hall ⊢
      exact if_pos (hneg.mpr hall)
    · rw [heq] at he ⊢
      exact if_neg fun hc => hneg.mp hc e he hetap

theorem mem_closeFd {fds : List ℕ} {fd : ℤ} {g : ℕ} :
    g ∈ closeFd fds fd ↔ g ∈ fds ∧ (g : ℤ) ≠ fd := by
  rw [closeFd, List.mem_filter, decide_eq_true_iff]

/-- The descriptor that is closed belongs to no live entry. -/
theorem disable (h : TapEntries names v.contexts v.openFds) (hnode : node ∈ names.nodes)
    (htap : tap ∈ names.taps) (b : Behind) :
    TapEntries names (disableTapMirror b v node tap).contexts
      (disableTapMirror b v node tap).openFds := by
  rcases h.disable_cases hnode htap b with ⟨-, heq⟩ | ⟨i, ctx, fd, hd⟩
  · rw [heq]
    exact h
  · rw [hd.dropped]
    refine (h.dropTap hd.context tap).mono (fun j c hj => (h.dropTap hd.context tap).node j c hj)
      (fun e he => he) fun e he g hg hfd => ?_
    by_cases hall : ∀ e', LiveTap (disableTapMirror b v node tap).contexts e' →
        e'.name ≠ some tap
    · rw [hd.closed hall]
      refine mem_closeFd.mpr ⟨hg, fun hc => ?_⟩
      have hpos : 0 < e.fd := by
        obtain ⟨-, -, -, -, hpos⟩ := id he
        exact hpos
      rcases hd.descriptor with ⟨hzero, -⟩ | ⟨e₀, he₀, hpos₀, hname₀, hfd₀⟩
      · omega
      · have hsame : e.fd = e₀.fd := by omega
        have hetap := (h.shared e e₀ (he.of_dropTap hd.context)
          ⟨i, ctx, hd.context, he₀, hpos₀⟩).mp hsame
        rw [hd.dropped] at hall
        exact hall e he (hetap.trans hname₀)
    · obtain ⟨e', hnot⟩ := not_forall.mp hall
      obtain ⟨he', hetap⟩ := Classical.not_imp.mp hnot
      rw [hd.kept ⟨e', he', not_not.mp hetap⟩]
      exact hg

theorem unhookedState (h : TapEntries names v.contexts v.openFds) (i : ContextSlot)
    (ctx : MirrorContext) : TapEntries names (unhookedState v i ctx).contexts v.openFds := by
  refine h.mono (fun j c hj => ?_) (fun e he => ?_) fun _ _ _ hg _ => hg
  · obtain ⟨k, hk⟩ := SlotTable.Holds.of_clear ⟨j, hj⟩
    exact h.node k c hk
  · obtain ⟨j, c, hj, hmem, hpos⟩ := he
    obtain ⟨k, hk⟩ := SlotTable.Holds.of_clear ⟨j, hj⟩
    exact ⟨k, c, hk, hmem, hpos⟩

end TapEntries

/-! ### Runs -/

/-- The step uses these names only. -/
def MirrorStep.Uses (s : MirrorStep) (names : MirrorNames) : Prop :=
  match s.command with
  | .enable node tap _ => node ∈ names.nodes ∧ tap ∈ names.taps
  | .disable node tap => node ∈ names.nodes ∧ tap ∈ names.taps
  | .frame _ _ => True

/-- Both invariants in a state of the plugin. -/
structure Mirroring (graph : NodeGraph) (names : MirrorNames) (v : TapMirror) : Prop where
  hooked : Hooked graph v
  entries : TapEntries names v.contexts v.openFds

namespace Mirroring

variable {graph : NodeGraph} {names : MirrorNames} {v : TapMirror}

theorem init (graph : NodeGraph) (names : MirrorNames) (openFds : List ℕ) :
    Mirroring graph names (tapMirrorInit graph openFds) :=
  ⟨Hooked.init graph openFds, TapEntries.init names openFds⟩

theorem step (h : Mirroring graph names v) {s : MirrorStep} (hs : s.Uses names)
    {w : TapMirror} {events : List MirrorEvent} (hw : mirrorStep v s = .ok (w, events)) :
    Mirroring graph names w := by
  obtain ⟨w', events', hw', hhooked⟩ := h.hooked.step s
  rw [hw] at hw'
  cases hw'
  refine ⟨hhooked, ?_⟩
  obtain ⟨command, b⟩ := s
  cases command with
  | enable node tap kernel =>
    cases hw
    exact h.entries.enable hs.1 hs.2 b kernel
  | disable node tap =>
    cases hw
    exact h.entries.disable hs.1 hs.2 b
  | frame node pkts =>
    rcases h.hooked.dispatchFrame_cases b node pkts with
      ⟨-, passed, heq⟩ | ⟨i, ctx, -, hfound, ⟨-, heq⟩ | ⟨-, heq⟩⟩ <;>
      simp only [mirrorStep, heq] at hw <;> cases hw
    · exact h.entries
    · exact h.entries.unhookedState i ctx
    · exact h.entries

theorem run (h : Mirroring graph names v) {steps : List MirrorStep}
    (hsteps : ∀ s ∈ steps, s.Uses names) {w : TapMirror} (hw : mirrorRun v steps = .ok w) :
    Mirroring graph names w := by
  induction steps generalizing v with
  | nil =>
    cases hw
    exact h
  | cons s rest ih =>
    obtain ⟨u, events, hstep, -⟩ := h.hooked.step s
    rw [mirrorRun, hstep] at hw
    exact ih (h.step (hsteps s List.mem_cons_self) hstep)
      (fun s' hs' => hsteps s' (List.mem_cons_of_mem s hs')) hw

end Mirroring

end Routerd
