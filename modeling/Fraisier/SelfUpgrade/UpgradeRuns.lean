import Fraisier.Effect.Conditions
import Fraisier.SelfUpgrade.BinDir

/-!
# Upgrades, one after the other

What is removed after an upgrade is decided by the times at which binaries were written, and
which binary an upgrade can be taken back to is decided by which one was healthy last. Read
`upgrades_retain` first: a committed upgrade leaves the binary before it where fewer than `keep`
binaries are newer.
-/

namespace Fraisier.SelfUpgrade

open Fraisier.Effect
open Fraisier.Data (Node PathBuf)

/-! ## Runs -/

/-- Run an upgrade. -/
def upgrade (o : Oracle) (plan : Plan) (s : Disk) : Run UpgradeSig Disk ApplyOutcome :=
  plan.apply.exec (disk o) [] s

/-- The disk after some upgrades. -/
def Disk.after (o : Oracle) : List Plan → Disk → Disk
  | [], s => s
  | plan :: rest, s => after o rest (upgrade o plan s).final

/-- Whether a text is the name of a binary: a file name, and not that of one of the links. -/
def isBinaryName (name : String) : Bool :=
  name != "" && name != "." && name != ".." && !name.toList.contains '/' &&
    !Layout.isLinkName name

/-- A binary is active: the link points at it, and it is there. -/
structure Disk.Active (s : Disk) (layout : Layout) (name : String) (file : File) : Prop where
  link : s.node layout.current = some (.link (layout.binDir.below [name]))
  file : s.node (layout.binDir.below [name]) = some (.file file)

/-- The binaries of a directory. -/
def Disk.binaries (s : Disk) (layout : Layout) : List String :=
  (s.names layout.binDir).filter fun name =>
    !Layout.isLinkName name && (s.node (layout.binDir.below [name])).any Node.isFile

/-- The binaries of a directory that were not written before a time. -/
def Disk.since (s : Disk) (layout : Layout) (time : Nat) : List String :=
  (s.binaries layout).filter fun name =>
    (s.node (layout.binDir.below [name])).any fun
      | .file file => time ≤ file.modified
      | _ => false

/-- What a committed upgrade leaves: the binary that was active before is still there, the new
one is there and active, and of all the others not more than are to be kept, where they can be
removed. -/
def Retains (o : Oracle) (plan : Plan) (s : Disk) : Prop :=
  ∀ id pruned, (upgrade o plan s).value = .committed id pruned →
    (∀ prior file, isBinaryName prior = true → s.Active plan.layout prior file →
      ∃ file', (upgrade o plan s).final.node (plan.layout.binDir.below [prior]) =
        some (.file file') ∧ file'.bytes = file.bytes) ∧
    (∃ file, (upgrade o plan s).final.Active plan.layout id file) ∧
    (o.Prunes → ((upgrade o plan s).final.binaries plan.layout).length ≤ max plan.keep 1)

/-- What an upgrade has to find so that the binary before it is kept: the directory is absolute,
the new binary has a name of its own that is no link, it is another one than the active one or
the same again, and but for the two of them less than `keep - 1` binaries are at least as new as
the active one. -/
def KeepsPrior (o : Oracle) (plan : Plan) (s : Disk) : Prop :=
  plan.layout.binDir.absolute = true ∧ ∀ verified, o.fetched s.clock = .ok verified →
    isBinaryName (resolveId plan.version verified.digest) = true ∧
    (∀ target, s.node (plan.layout.stagedPath (resolveId plan.version verified.digest)) ≠
      some (.link target)) ∧
    ∀ prior file, isBinaryName prior = true → s.Active plan.layout prior file →
      if resolveId plan.version verified.digest = prior then verified.bytes = file.bytes
      else ((s.since plan.layout file.modified).filter fun name =>
        name ≠ prior ∧ name ≠ resolveId plan.version verified.digest).length + 1 < plan.keep

/-! ## The newest of some entries -/

/-- What has fewer than `k` others before it or beside it is among the first `k`. -/
theorem mem_take_of_count {α : Type} [DecidableEq α] {key : α → Nat} {l : List α} {x : α} {k : Nat}
    (hsorted : l.Pairwise fun a b => key b ≤ key a) (hnodup : l.Nodup) (hx : x ∈ l)
    (hcount : (l.filter fun y => y ≠ x ∧ key x ≤ key y).length < k) : x ∈ l.take k := by
  by_contra hnot
  have hdrop : x ∈ l.drop k := by
    rw [← List.take_append_drop k l, List.mem_append] at hx
    exact hx.resolve_left hnot
  rw [← List.take_append_drop k l, List.pairwise_append] at hsorted
  rw [← List.take_append_drop k l] at hnodup
  have htake : (l.take k).Sublist (l.filter fun y => y ≠ x ∧ key x ≤ key y) := by
    have hfilter : (l.take k).filter (fun y => y ≠ x ∧ key x ≤ key y) = l.take k := by
      refine List.filter_eq_self.mpr fun y hy => decide_eq_true ⟨?_, hsorted.2.2 y hy x hdrop⟩
      rintro rfl
      exact List.disjoint_of_nodup_append hnodup hy hdrop
    rw [← hfilter]
    exact (List.take_sublist k l).filter _
  have hlength := htake.length_le
  rw [List.length_take] at hlength
  have hlong : k < l.length := by
    by_contra hshort
    rw [List.drop_eq_nil_of_le (Nat.le_of_not_lt hshort)] at hdrop
    cases hdrop
  omega

/-! ## Names -/

section Names

variable {layout : Layout} {name : String}

theorem isLinkName_temporary (layout : Layout) :
    Layout.isLinkName (Layout.temporaryPrefix ++ toString layout.pid) = true := by
  rw [Layout.isLinkName, String.toList_append, Bool.or_eq_true]
  exact .inr (List.isPrefixOf_iff_prefix.mpr (List.prefix_append _ _))

theorem isLinkName_of_isBinaryName (h : isBinaryName name = true) :
    Layout.isLinkName name = false := by
  simp only [isBinaryName, Bool.and_eq_true, Bool.not_eq_true'] at h
  exact h.2

/-- A binary is staged in the directory, under its name. -/
theorem stagedPath_of_isBinaryName (layout : Layout) (h : isBinaryName name = true) :
    layout.stagedPath name = layout.binDir.below [name] := by
  simp only [isBinaryName, Bool.and_eq_true, bne_iff_ne, Bool.not_eq_true',
    List.contains_eq_mem, decide_eq_false_iff_not] at h
  obtain ⟨⟨⟨⟨hempty, hdot⟩, -⟩, hslash⟩, -⟩ := h
  have hhead : name.toList.head? ≠ some '/' := fun heq => hslash (List.mem_of_head? heq)
  have hsplit : name.toList.splitOn '/' = [name.toList] :=
    List.splitOnP_eq_singleton fun c hc => beq_eq_false_iff_ne.mpr fun heq => hslash (heq ▸ hc)
  have htext : PathBuf.ofText name = ⟨false, [name]⟩ := by
    rw [PathBuf.ofText, hsplit]
    simp [hhead, hempty, hdot]
  rw [Layout.stagedPath, htext]
  rfl

theorem below_ne_of_isLinkName {other : String} (h : Layout.isLinkName name = false)
    (hother : Layout.isLinkName other = true) :
    layout.binDir.below [name] ≠ layout.binDir.below [other] := by
  intro heq
  rw [← PathBuf.below_injective _ heq, h] at hother
  cases hother

theorem below_ne_binDir : layout.binDir.below [name] ≠ layout.binDir := by
  intro heq
  have hlength := congrArg (fun path : PathBuf => path.parts.length) heq
  simp [PathBuf.below] at hlength

theorem below_not_mem (h : Layout.isLinkName name = false) :
    layout.binDir.below [name] ∉ [layout.binDir, layout.temporary, layout.current] := by
  simp only [List.mem_cons, List.not_mem_nil, or_false, not_or]
  exact ⟨below_ne_binDir, below_ne_of_isLinkName h (isLinkName_temporary layout),
    below_ne_of_isLinkName h (by decide)⟩

/-- Only the active binary has its name. -/
theorem isActive_eq_false {id : String} (hid : isBinaryName id = true) (hne : name ≠ id) :
    Layout.isActive (layout.binDir.below [id]).fileName (layout.binDir.below [name]) = false := by
  have hdots : id ≠ ".." := by
    rintro rfl
    exact absurd hid (by decide)
  rw [PathBuf.fileName_below layout.binDir hdots]
  by_cases hname : name = ".."
  · subst hname
    simp [Layout.isActive, PathBuf.fileName, PathBuf.below, hne]
  · simp [Layout.isActive, PathBuf.fileName_below layout.binDir hname, hne]

end Names

/-! ## A committed upgrade -/

/-- A binary was written and made the active one, and nothing else was changed. -/
structure Swapped (layout : Layout) (id : String) (bytes : List UInt8) (s s' : Disk) : Prop where
  keeps : ∀ path, path ∉ [layout.binDir, layout.temporary, layout.current] →
    path ≠ layout.binDir.below [id] → s'.node path = s.node path
  link : s'.node layout.current = some (.link (layout.binDir.below [id]))
  staged : ∃ time, s.clock ≤ time ∧
    s'.node (layout.binDir.below [id]) = some (.file ⟨bytes, time⟩)

section Committed

variable {o : Oracle} {s : Disk} {plan : Plan}

theorem giveUp_spec (failed : String) (restored : Option String) (reason : String) :
    wp (disk o) Eq Guarantee.any (Plan.giveUp failed restored reason)
      (fun r _ => ∀ id pruned, r ≠ .committed id pruned) s :=
  wp_bind (wp_ask (wp_ret.mpr fun _ _ h => nomatch h))

/-- What is taken back is not committed. -/
theorem revert_spec (failed : String) (prior : Option String) :
    wp (disk o) Eq Guarantee.any (plan.revert failed prior)
      (fun r _ => ∀ id pruned, r ≠ .committed id pruned) s := by
  cases prior with
  | none => exact giveUp_spec _ _ _
  | some prior =>
      refine wp_bind (wp_post (fun r s₁ _ => ?_) (activate_spec o s plan.layout prior))
      cases r with
      | error error => exact giveUp_spec _ _ _
      | ok =>
          refine wp_bind (wp_post (fun up s₂ _ => ?_) (bringUp_spec o s₁ plan))
          cases up with
          | true => exact wp_bind (wp_ask (wp_ret.mpr fun _ _ h => nomatch h))
          | false => exact giveUp_spec _ _ _

/-- Staging a binary, activating it and bringing the unit up swaps it in. -/
theorem swapped_of {layout : Layout} {id : String} {bytes : List UInt8} {s₂ s₃ s₄ : Disk}
    (habsolute : layout.binDir.absolute = true) (hbinary : isBinaryName id = true)
    (hstaged : Keeps [layout.binDir, layout.stagedPath id] s.tick.tick s₂)
    (hfile : ∃ time, s.tick.tick.clock ≤ time ∧
      s₂.node (layout.stagedPath id) = some (.file ⟨bytes, time⟩))
    (hactivated : Keeps [layout.temporary, layout.current] s₂ s₃)
    (hcurrent : s₃.node layout.current = some (.link (layout.linkTo id)))
    (hup : Keeps [] s₃ s₄) : Swapped layout id bytes s s₄ := by
  have hnot := @below_not_mem layout id (isLinkName_of_isBinaryName hbinary)
  rw [Layout.linkTo_of_absolute habsolute] at hcurrent
  rw [stagedPath_of_isBinaryName layout hbinary] at hstaged hfile hcurrent
  simp only [List.mem_cons, List.not_mem_nil, or_false, not_or] at hnot
  refine ⟨fun path hpath hne => ?_, ?_, ?_⟩
  · simp only [List.mem_cons, List.not_mem_nil, or_false, not_or] at hpath
    rw [hup.node path (by simp), hactivated.node path (by simp [hpath]),
      hstaged.node path (by simp [hpath, hne])]
    rfl
  · rw [hup.node _ (by simp), hcurrent]
  · obtain ⟨time, htime, hfile⟩ := hfile
    refine ⟨time, ?_, ?_⟩
    · simp only [Disk.clock_tick] at htime
      omega
    · rw [hup.node _ (by simp), hactivated.node _ (by simp [hnot]), hfile]

/-- A committed upgrade staged its binary, made it the active one and pruned. -/
theorem apply_spec (habsolute : plan.layout.binDir.absolute = true)
    (hname : ∀ verified, o.fetched s.clock = .ok verified →
      isBinaryName (resolveId plan.version verified.digest) = true ∧
      ∀ target, s.node (plan.layout.stagedPath (resolveId plan.version verified.digest)) ≠
        some (.link target)) :
    wp (disk o) Eq Guarantee.any plan.apply
      (fun r s' => ∀ id pruned, r = .committed id pruned → ∃ verified s₁,
        o.fetched s.clock = .ok verified ∧ id = resolveId plan.version verified.digest ∧
        Swapped plan.layout id verified.bytes s s₁ ∧ Pruned o plan.layout plan.keep s₁ s') s := by
  refine wp_ite (fun _ => wp_ret.mpr fun _ _ h => by cases h) fun _ => ?_
  refine wp_bind (wp_ask ?_)
  simp only [disk]
  cases hfetched : o.fetched s.clock with
  | error error => exact wp_ret.mpr fun _ _ h => by cases h
  | ok verified =>
      obtain ⟨hbinary, hlink⟩ := hname verified hfetched
      have hpath := stagedPath_of_isBinaryName plan.layout hbinary
      refine wp_bind (wp_post (fun r s₁ h => ?_) (active_spec o s.tick plan.layout))
      obtain ⟨rfl, -, -⟩ := h
      cases r with
      | error error => exact wp_ret.mpr fun _ _ h => by cases h
      | ok prior =>
          refine wp_bind (wp_post (fun r s₂ h => ?_)
            (stage_spec o s.tick.tick hlink (by rw [hpath]; exact below_ne_binDir) verified.bytes))
          obtain ⟨hstaged, hfile⟩ := h
          cases r with
          | error error => exact wp_ret.mpr fun _ _ h => by cases h
          | ok =>
              refine wp_bind (wp_post (fun r s₃ h => ?_) (activate_spec o s₂ plan.layout _))
              obtain ⟨hactivated, hcurrent⟩ := h
              cases r with
              | error error => exact wp_ret.mpr fun _ _ h => by cases h
              | ok =>
                  refine wp_bind (wp_post (fun up s₄ hup => ?_) (bringUp_spec o s₃ plan))
                  cases up with
                  | false =>
                      exact wp_post (fun r _ h id pruned hr => absurd hr (h id pruned))
                        (revert_spec _ _)
                  | true =>
                      have hswapped : Swapped plan.layout
                          (resolveId plan.version verified.digest) verified.bytes s s₄ :=
                        swapped_of habsolute hbinary hstaged (hfile rfl) hactivated hcurrent hup
                      refine wp_bind (wp_post (fun r s₅ hpruned => ?_)
                        (prune_spec o s₄ plan.layout plan.keep))
                      cases r with
                      | error error =>
                          refine wp_ret.mpr fun id pruned h => ?_
                          cases h
                          exact ⟨verified, s₄, rfl, rfl, hswapped, hpruned⟩
                      | ok removed =>
                          refine wp_ret.mpr fun id pruned h => ?_
                          cases h
                          exact ⟨verified, s₄, rfl, rfl, hswapped, hpruned⟩

/-! ## What pruning leaves -/

section Entries

variable {layout : Layout} {keep : Nat}

theorem pairwise_newestFirst (staged : List (PathBuf × Nat)) :
    (Layout.newestFirst staged).Pairwise fun a b => b.2 ≤ a.2 := by
  have : Std.Total fun a b : PathBuf × Nat => b.2 ≤ a.2 := ⟨fun a b => le_total b.2 a.2⟩
  have : IsTrans (PathBuf × Nat) fun a b => b.2 ≤ a.2 := ⟨fun _ _ _ h h' => h'.trans h⟩
  exact List.pairwise_insertionSort _ staged

/-- What has fewer than `keep` others that are as new is not taken away. -/
theorem not_mem_gone_of_count {e : PathBuf × Nat}
    (he : e ∈ s.staged layout (s.names layout.binDir))
    (hcount : ((s.staged layout (s.names layout.binDir)).filter
      fun e' => e' ≠ e ∧ e.2 ≤ e'.2).length < keep) :
    e ∈ (Layout.newestFirst (s.staged layout (s.names layout.binDir))).take keep ∧
      e.1 ∉ s.gone layout keep := by
  have hperm : (Layout.newestFirst (s.staged layout (s.names layout.binDir))).Perm
      (s.staged layout (s.names layout.binDir)) := List.perm_insertionSort _ _
  have hnodup : ((Layout.newestFirst (s.staged layout (s.names layout.binDir))).map
      Prod.fst).Nodup :=
    (hperm.map Prod.fst).nodup_iff.mpr (Disk.nodup_staged (s.nodup_names _))
  have htake : e ∈ (Layout.newestFirst (s.staged layout (s.names layout.binDir))).take keep := by
    refine mem_take_of_count (pairwise_newestFirst _) (List.Nodup.of_map _ hnodup)
      (hperm.mem_iff.mpr he) ?_
    rwa [(hperm.filter _).length_eq]
  refine ⟨htake, fun hgone => ?_⟩
  rw [← List.take_append_drop keep (Layout.newestFirst _), List.map_append] at hnodup
  exact List.disjoint_of_nodup_append hnodup (List.mem_map_of_mem htake)
    (Layout.mem_stale.mp hgone).1

/-- What the link points at is not taken away. -/
theorem not_mem_gone_of_link {name : String} (hname : isBinaryName name = true)
    (hlink : s.node layout.current = some (.link (layout.binDir.below [name]))) :
    layout.binDir.below [name] ∉ s.gone layout keep := by
  intro hgone
  have hdots : name ≠ ".." := by
    rintro rfl
    exact absurd hname (by decide)
  have hactive := (Layout.mem_stale.mp hgone).2
  rw [Disk.activeName, hlink] at hactive
  simp [Layout.isActive, PathBuf.fileName_below layout.binDir hdots] at hactive

/-- A file of the directory is one of the entries that are pruned. -/
theorem mem_staged_of_file {name : String} {file : File} (hlink : Layout.isLinkName name = false)
    (hfile : s.node (layout.binDir.below [name]) = some (.file file)) :
    (layout.binDir.below [name], file.modified) ∈ s.staged layout (s.names layout.binDir) :=
  Disk.mem_staged.mpr ⟨name, Disk.mem_names.mpr (by rw [hfile]; rfl), hlink, file, hfile, rfl⟩

theorem mem_binaries {name : String} :
    name ∈ s.binaries layout ↔ Layout.isLinkName name = false ∧
      ∃ file, s.node (layout.binDir.below [name]) = some (.file file) := by
  rw [Disk.binaries, List.mem_filter, Disk.mem_names, Bool.and_eq_true, Bool.not_eq_true']
  constructor
  · rintro ⟨-, hlink, hfile⟩
    refine ⟨hlink, ?_⟩
    cases hnode : s.node (layout.binDir.below [name]) with
    | none => simp [hnode] at hfile
    | some node =>
        cases node with
        | file file => exact ⟨file, rfl⟩
        | other => simp [hnode, Node.isFile] at hfile
        | link target => simp [hnode, Node.isFile] at hfile
  · rintro ⟨hlink, file, hfile⟩
    simp [hfile, hlink, Node.isFile]

theorem nodup_binaries : (s.binaries layout).Nodup :=
  (s.nodup_names layout.binDir).filter _

theorem mem_since {time : Nat} {name : String} :
    name ∈ s.since layout time ↔ Layout.isLinkName name = false ∧ ∃ file,
      s.node (layout.binDir.below [name]) = some (.file file) ∧ time ≤ file.modified := by
  rw [Disk.since, List.mem_filter, mem_binaries]
  constructor
  · rintro ⟨⟨hlink, file, hfile⟩, htime⟩
    refine ⟨hlink, file, hfile, ?_⟩
    simpa [hfile] using htime
  · rintro ⟨hlink, file, hfile, htime⟩
    exact ⟨⟨hlink, file, hfile⟩, by simpa [hfile] using htime⟩

end Entries

section Swapped

variable {layout : Layout} {keep : Nat} {id : String} {bytes : List UInt8} {s₁ s' : Disk}

/-- But for the new binary the directory holds the same binaries. -/
theorem Swapped.node_of_ne (h : Swapped layout id bytes s s₁) {name : String}
    (hlink : Layout.isLinkName name = false) (hne : name ≠ id) :
    s₁.node (layout.binDir.below [name]) = s.node (layout.binDir.below [name]) :=
  h.keeps _ (below_not_mem hlink) fun heq => hne (PathBuf.below_injective _ heq)

/-- The new binary is newer than all others. -/
theorem Swapped.newest (h : Swapped layout id bytes s s₁) (hs : s.Timed) {time : Nat}
    (htime : s.clock ≤ time)
    (hfile : s₁.node (layout.binDir.below [id]) = some (.file ⟨bytes, time⟩)) :
    (s₁.staged layout (s₁.names layout.binDir)).filter
      (fun e => e ≠ (layout.binDir.below [id], time) ∧ time ≤ e.2) = [] := by
  refine List.filter_eq_nil_iff.mpr fun e he hnewer => ?_
  obtain ⟨hne, hnewer⟩ := of_decide_eq_true hnewer
  obtain ⟨name, -, hlink, file, hname, rfl⟩ := Disk.mem_staged.mp he
  by_cases hid : name = id
  · subst hid
    rw [hfile] at hname
    cases hname
    exact hne rfl
  · rw [h.node_of_ne hlink hid] at hname
    have hpast := hs _ file hname
    simp only at hnewer
    omega

/-- The new binary is among the first `keep`, and it is not taken away. -/
theorem Swapped.new_kept (h : Swapped layout id bytes s s₁) (hs : s.Timed)
    (hbinary : isBinaryName id = true) :
    (0 < keep → ∃ time, (layout.binDir.below [id], time) ∈
      (Layout.newestFirst (s₁.staged layout (s₁.names layout.binDir))).take keep) ∧
    layout.binDir.below [id] ∉ s₁.gone layout keep := by
  obtain ⟨time, htime, hfile⟩ := h.staged
  have hmem := mem_staged_of_file (isLinkName_of_isBinaryName hbinary) hfile
  constructor
  · intro hkeep
    refine ⟨time, (not_mem_gone_of_count hmem ?_).1⟩
    rw [h.newest hs htime hfile]
    exact hkeep
  · exact not_mem_gone_of_link hbinary h.link

/-- The link is not taken away. -/
theorem Swapped.link_kept (h : Swapped layout id bytes s s₁) :
    layout.current ∉ s₁.gone layout keep := by
  intro hgone
  obtain ⟨file, hfile⟩ := Disk.file_of_mem_gone hgone
  rw [h.link] at hfile
  cases hfile

/-- The binary before the new one is not taken away if fewer than `keep - 1` others are as new. -/
theorem Swapped.prior_kept (h : Swapped layout id bytes s s₁) {prior : String} {file : File}
    (hprior : isBinaryName prior = true) (hne : prior ≠ id) (hactive : s.Active layout prior file)
    (hcount : ((s.since layout file.modified).filter fun name =>
      name ≠ prior ∧ name ≠ id).length + 1 < keep) :
    layout.binDir.below [prior] ∉ s₁.gone layout keep := by
  have hlink := isLinkName_of_isBinaryName hprior
  have hfile : s₁.node (layout.binDir.below [prior]) = some (.file file) :=
    (h.node_of_ne hlink hne).trans hactive.file
  refine (not_mem_gone_of_count (mem_staged_of_file hlink hfile) (lt_of_le_of_lt ?_ hcount)).2
  -- what is as new has the name of the new binary, or it was there before
  have hsubset : ((s₁.staged layout (s₁.names layout.binDir)).filter fun e =>
      e ≠ (layout.binDir.below [prior], file.modified) ∧ file.modified ≤ e.2).map Prod.fst ⊆
      (id :: (s.since layout file.modified).filter fun name => name ≠ prior ∧ name ≠ id).map
        fun name => layout.binDir.below [name] := by
    intro path hpath
    obtain ⟨e, he, rfl⟩ := List.mem_map.mp hpath
    obtain ⟨he, hnewer⟩ := List.mem_filter.mp he
    obtain ⟨hother, hnewer⟩ := of_decide_eq_true hnewer
    obtain ⟨name, -, hname, file', hfile', rfl⟩ := Disk.mem_staged.mp he
    refine List.mem_map.mpr ⟨name, ?_, rfl⟩
    by_cases hid : name = id
    · exact hid ▸ List.mem_cons_self
    · refine List.mem_cons_of_mem _ (List.mem_filter.mpr ⟨mem_since.mpr ⟨hname, file', ?_, hnewer⟩,
        decide_eq_true ⟨?_, hid⟩⟩)
      · rw [← h.node_of_ne hname hid, hfile']
      · rintro rfl
        rw [hfile] at hfile'
        cases hfile'
        exact hother rfl
  have hnodup : (((s₁.staged layout (s₁.names layout.binDir)).filter fun e =>
      e ≠ (layout.binDir.below [prior], file.modified) ∧ file.modified ≤ e.2).map
      Prod.fst).Nodup :=
    (Disk.nodup_staged (s₁.nodup_names _)).sublist (List.filter_sublist.map _)
  have hlength := (List.subperm_of_subset hnodup hsubset).length_le
  simpa using hlength

/-- Not more binaries are left than are to be kept. -/
theorem Swapped.length_binaries (h : Swapped layout id bytes s s₁) (hs : s.Timed)
    (hbinary : isBinaryName id = true) (hprunes : o.Prunes)
    (hpruned : Pruned o layout keep s₁ s') : (s'.binaries layout).length ≤ max keep 1 := by
  have hleft : ∀ name ∈ s'.binaries layout, name = id ∨
      layout.binDir.below [name] ∈
        ((Layout.newestFirst (s₁.staged layout (s₁.names layout.binDir))).take keep).map
          Prod.fst := by
    intro name hname
    obtain ⟨hlink, file, hfile⟩ := mem_binaries.mp hname
    obtain hsame | ⟨-, hnone⟩ := hpruned.keeps (layout.binDir.below [name])
    · have hmem := mem_staged_of_file hlink (hsame.symm.trans hfile)
      have hgone : layout.binDir.below [name] ∉ s₁.gone layout keep := by
        intro hgone
        rw [hpruned.gone hprunes ⟨_, h.link⟩ _ hgone] at hfile
        cases hfile
      have hsorted := (List.mem_insertionSort fun a b => b.2 ≤ a.2).mpr hmem
      rw [← List.take_append_drop keep (List.insertionSort _ _), List.mem_append] at hsorted
      obtain htake | hdrop := hsorted
      · exact .inr (List.mem_map_of_mem htake)
      · refine .inl (by_contra fun hne =>
          hgone (Layout.mem_stale.mpr ⟨List.mem_map_of_mem hdrop, ?_⟩))
        rw [Disk.activeName, h.link]
        exact isActive_eq_false hbinary hne
    · rw [hnone] at hfile
      cases hfile
  cases keep with
  | zero =>
      have hsubset : s'.binaries layout ⊆ [id] := by
        intro name hname
        obtain rfl | hmem := hleft name hname
        · exact List.mem_singleton_self name
        · simp at hmem
      simpa using (List.subperm_of_subset nodup_binaries hsubset).length_le
  | succ keep =>
      obtain ⟨time, hnew⟩ := (h.new_kept hs hbinary).1 (Nat.succ_pos keep)
      have hsubset : (s'.binaries layout).map (fun name => layout.binDir.below [name]) ⊆
          ((Layout.newestFirst (s₁.staged layout (s₁.names layout.binDir))).take (keep + 1)).map
            Prod.fst := by
        intro path hpath
        obtain ⟨name, hname, rfl⟩ := List.mem_map.mp hpath
        obtain rfl | hmem := hleft name hname
        · exact List.mem_map_of_mem hnew
        · exact hmem
      have hlength := (List.subperm_of_subset
        (nodup_binaries.map fun _ _ heq => PathBuf.below_injective _ heq) hsubset).length_le
      simp only [List.length_map, List.length_take] at hlength
      omega

end Swapped

end Committed

/-! ## Runs of upgrades -/

/-- However upgrades end, every file was written in the past. -/
theorem after_timed (o : Oracle) (plans : List Plan) {s : Disk} (hs : s.Timed) :
    (s.after o plans).Timed := by
  induction plans generalizing s with
  | nil => exact hs
  | cons plan plans ih =>
      refine ih ?_
      have hwp : wp (disk o) Eq Guarantee.any plan.apply (fun _ _ => True) s :=
        wp_any fun _ _ => trivial
      have hstep : ∀ (s : Disk) (c : UpgradeCall),
          (Guarantee.any : Guarantee UpgradeSig Disk) s c (disk o c s).2 → s.Timed →
            (disk o c s).2.Timed := fun _ c _ h => disk_timed o c h
      exact (wp_exec (wp_keep hstep hs hwp) []).1.1

/-- In every run of upgrades, each one that is committed and that finds what it has to leaves the
binary before it, the new one, and not more than are to be kept. -/
theorem upgrades_retain (o : Oracle) {s : Disk} (hs : s.Timed) (before : List Plan) (plan : Plan)
    (hkeeps : KeepsPrior o plan (s.after o before)) : Retains o plan (s.after o before) := by
  intro id pruned hvalue
  obtain ⟨habsolute, hkeeps⟩ := hkeeps
  have htimed := after_timed o before hs
  have happly := (wp_exec (@apply_spec o (s.after o before) plan habsolute fun verified hfetched =>
    ⟨(hkeeps verified hfetched).1, (hkeeps verified hfetched).2.1⟩) []).1
  obtain ⟨verified, s₁, hfetched, rfl, hswapped, hpruned⟩ := happly id pruned hvalue
  obtain ⟨hbinary, -, hprior⟩ := hkeeps verified hfetched
  refine ⟨fun prior file hname hactive => ?_, ?_, fun hprunes => ?_⟩
  · have hcount := hprior prior file hname hactive
    split at hcount
    next hsame =>
      obtain ⟨time, -, hnew⟩ := hswapped.staged
      obtain hkept | ⟨hgone, -⟩ := hpruned.keeps _
      · exact ⟨_, hkept.trans (hsame ▸ hnew), hcount⟩
      · exact absurd hgone (hsame ▸ (hswapped.new_kept htimed hbinary).2)
    next hother =>
      obtain hkept | ⟨hgone, -⟩ := hpruned.keeps (plan.layout.binDir.below [prior])
      · have hnode := hswapped.node_of_ne (isLinkName_of_isBinaryName hname) (Ne.symm hother)
        exact ⟨file, hkept.trans (hnode.trans hactive.file), rfl⟩
      · exact absurd hgone (hswapped.prior_kept hname (Ne.symm hother) hactive hcount)
  · obtain ⟨time, -, hnew⟩ := hswapped.staged
    refine ⟨⟨verified.bytes, time⟩, ?_, ?_⟩
    · exact ((hpruned.keeps _).resolve_right fun h => hswapped.link_kept h.1).trans hswapped.link
    · exact ((hpruned.keeps _).resolve_right fun h =>
        (hswapped.new_kept htimed hbinary).2 h.1).trans hnew
  · exact hswapped.length_binaries htimed hbinary hprunes hpruned

/-- A directory in which the binary 1.0.0 is active. -/
def installed : Disk :=
  ((((⟨∅, 0⟩ : Disk).put ⟨true, ["bin"]⟩ .other).put ⟨true, ["bin", "1.0.0"]⟩
    (.file ⟨[1], 0⟩)).put ⟨true, ["bin", "current"]⟩ (.link ⟨true, ["bin", "1.0.0"]⟩)).tick

/-- A host on which nothing fails, and whose unit does not come up at some times. -/
def hostUnlessAt (down : List Nat) : Oracle where
  fault _ _ := none
  left _ := none
  fetched _ := .ok ⟨[2], "", false⟩
  healthy time := !down.contains time

/-- An upgrade to a version that keeps two binaries. -/
def planFor (version : String) : Plan :=
  ⟨.path "fraisier" none, ⟨⟨true, ["bin"]⟩, 7⟩, some version, 2, true, 30000, 500⟩

theorem installed_timed : installed.Timed := by
  have hempty : (⟨∅, 0⟩ : Disk).Current := fun path file h => by
    rw [Disk.node, AList.lookup_empty] at h
    cases h
  refine Disk.Current.tick (((hempty.put ?_).put ?_).put ?_)
  · intro file h
    cases h
  · intro file h
    cases h
    exact le_rfl
  · intro file h
    cases h

theorem upgrades_retain_installed :
    Retains (hostUnlessAt []) (planFor "2.0.0") (installed.after (hostUnlessAt []) []) := by
  refine upgrades_retain _ installed_timed [] _ ⟨rfl, fun verified hfetched => ?_⟩
  cases hfetched
  refine ⟨by decide, fun target h => ?_, fun prior file _ hactive => ?_⟩
  · have hnone : installed.node ((planFor "2.0.0").layout.stagedPath "2.0.0") = none := by
      decide +kernel
    exact nomatch hnone.symm.trans h
  · have hlink : installed.node (planFor "2.0.0").layout.current =
        some (.link ((planFor "2.0.0").layout.binDir.below ["1.0.0"])) := by decide +kernel
    have hname := Node.link.inj (Option.some.inj (hlink.symm.trans hactive.link))
    obtain rfl := PathBuf.below_injective _ hname
    have hfile : installed.node ((planFor "2.0.0").layout.binDir.below ["1.0.0"]) =
        some (.file ⟨[1], 0⟩) := by decide +kernel
    cases Node.file.inj (Option.some.inj (hfile.symm.trans hactive.file))
    decide +kernel

/-- A binary that failed is kept in the place of the one that was healthy before. -/
theorem failed_displaces_healthy :
    ¬∀ (o : Oracle) (s : Disk) (before : List Plan) (plan : Plan), s.Timed →
      (∀ plan' ∈ plan :: before, 2 ≤ plan'.keep ∧ plan'.layout.binDir = plan.layout.binDir) →
      Retains o plan (s.after o before) := by
  intro h
  have hretains := h (hostUnlessAt [10]) installed [planFor "2.0.0"] (planFor "3.0.0")
    installed_timed (by decide)
  have hvalue : (upgrade (hostUnlessAt [10]) (planFor "3.0.0")
      (installed.after (hostUnlessAt [10]) [planFor "2.0.0"])).value = .committed "3.0.0" 1 := by
    decide +kernel
  have hactive : (installed.after (hostUnlessAt [10]) [planFor "2.0.0"]).Active
      (planFor "3.0.0").layout "1.0.0" ⟨[1], 0⟩ := ⟨by decide +kernel, by decide +kernel⟩
  have hgone : (upgrade (hostUnlessAt [10]) (planFor "3.0.0")
      (installed.after (hostUnlessAt [10]) [planFor "2.0.0"])).final.node
        ((planFor "3.0.0").layout.binDir.below ["1.0.0"]) = none := by decide +kernel
  obtain ⟨file, hfile, -⟩ := (hretains "3.0.0" 1 hvalue).1 "1.0.0" _ (by decide) hactive
  exact nomatch hgone.symm.trans hfile

end Fraisier.SelfUpgrade
