import Fraisier.SelfUpgrade.Reports
import Fraisier.SelfUpgrade.UpgradeRuns

/-!
# What an upgrade promises

An outcome says what became of the link `current`, of the bytes it leads to and of the unit.
`Separate` is what has to be so of the directory for that to be true, whatever fails on the way:
the new binary is not written where the link leads, and the names that an upgrade uses are not
in each other's way. Read `upgrade_promises_iff` first.
-/

namespace Fraisier.SelfUpgrade

open Fraisier.Effect
open Fraisier.Data (Node PathBuf)

/-! ## The promise -/

/-- The bytes of a file. -/
def Disk.content (s : Disk) (path : PathBuf) : Option (List UInt8) :=
  match s.node path with
  | some (.file file) => some file.bytes
  | _ => none

/-- The bytes that `current` leads to: what the unit starts. -/
def Disk.reached (s : Disk) (layout : Layout) : Option (List UInt8) :=
  s.content (s.destination layout.current)

/-- What an outcome says of the link and of what it leads to. -/
structure Kept (layout : Layout) (s : Disk) (fetched : Except String Verified)
    (outcome : ApplyOutcome) (s' : Disk) : Prop where
  aborted : ∀ reason, outcome = .abortedBeforeSwap reason →
    s'.reached layout = s.reached layout ∧ s'.node layout.current = s.node layout.current
  reverted : ∀ failed restored reason, outcome = .reverted failed restored reason →
    s'.reached layout = s.reached layout
  committed : ∀ id pruned, outcome = .committed id pruned →
    ∃ verified, fetched = .ok verified ∧ s'.reached layout = some verified.bytes

/-- An upgrade does what its outcome says. -/
def Promised (o : Oracle) (plan : Plan) (s : Disk) : Prop :=
  Kept plan.layout s (o.fetched s.clock) (upgrade o plan s).value (upgrade o plan s).final ∧
    Reports plan (upgrade o plan s).value (upgrade o plan s).calls

/-- The name of the new binary. -/
def Plan.newId (plan : Plan) (verified : Verified) : String :=
  resolveId plan.version verified.digest

/-- Where the new binary is written. -/
def Disk.newPath (s : Disk) (plan : Plan) (verified : Verified) : PathBuf :=
  s.stagingPath plan.layout (plan.newId verified)

/-- The disk with the new binary staged. -/
def Disk.withNew (s : Disk) (plan : Plan) (verified : Verified) : Disk :=
  s.stagedWith plan.layout (plan.newId verified) verified.bytes (s.clock + 3)

/-- With the new binary staged, the links can be moved about: what `current` leads to does not
hang on the temporary link, `current` leads to the new bytes once it points at the new binary, in
a file that is not pruned, and to what it led to once it points back. -/
structure Disk.Swappable (s : Disk) (plan : Plan) (verified : Verified) : Prop where
  cleared : ((s.withNew plan verified).cleared plan.layout).reached plan.layout =
    s.reached plan.layout
  pointed : ((s.withNew plan verified).pointed plan.layout (plan.newId verified)).reached
    plan.layout = s.reached plan.layout
  leads : ((s.withNew plan verified).swapped plan.layout (plan.newId verified)).reached
    plan.layout = some verified.bytes
  stays : ((s.withNew plan verified).swapped plan.layout (plan.newId verified)).destination
    plan.layout.current ∉
      ((s.withNew plan verified).swapped plan.layout (plan.newId verified)).gone plan.layout
        plan.keep
  back : ∀ prior, s.activeName plan.layout = some prior →
    ((s.withNew plan verified).swapped plan.layout prior).reached plan.layout =
      s.reached plan.layout

/-- The new binary is not written where `current` leads, and unless a directory is in the place
of the temporary link, the links can be moved about. -/
structure Disk.Separate (s : Disk) (plan : Plan) (verified : Verified) : Prop where
  apart : s.destination plan.layout.current ≠ s.newPath plan verified
  swappable : s.node plan.layout.temporary ≠ some .other → s.Swappable plan verified

/-! ## What is reached -/

section Reached

variable {s s' : Disk} {layout : Layout} {id : String} {path : PathBuf}

theorem Disk.destination_of_links
    (h : ∀ x target, s'.node x = some (.link target) ↔ s.node x = some (.link target)) :
    s'.destination path = s.destination path := by
  rw [destination, destination, Node.trail_congr fun x _ => h x]

theorem Disk.content_of_file {file : File} (h : s.node path = some (.file file)) :
    s.content path = some file.bytes := by
  rw [content, h]

theorem Disk.file_of_content {bytes : List UInt8} (h : s.content path = some bytes) :
    ∃ file, s.node path = some (.file file) ∧ file.bytes = bytes := by
  rw [content] at h
  split at h
  next file hfile => exact ⟨file, hfile, Option.some.inj h⟩
  next => cases h

/-- What is reached depends on what stands at the paths. -/
theorem Keeps.reached (h : Keeps [] s s') : s'.reached layout = s.reached layout := by
  have hnode : s'.node = s.node := funext fun path => h.node path (by simp)
  rw [Disk.reached, Disk.reached, Disk.content, Disk.content, Disk.destination, Disk.destination,
    hnode]

theorem Disk.node_ensured_of_some {x : PathBuf} {node : Node PathBuf File}
    (h : s.node x = some node) : (s.ensured path).node x = some node := by
  rw [ensured]
  split
  next hnone =>
    rw [node_put_of_ne, h]
    rintro rfl
    cases hnone.symm.trans h
  next => exact h

theorem Disk.content_ensured (x : PathBuf) : (s.ensured path).content x = s.content x := by
  rw [ensured]
  split
  next hnone =>
    by_cases hx : x = path
    · subst hx
      simp [content, hnone]
    · rw [content, content, node_put_of_ne hx]
  next => rfl

/-- A directory where nothing was changes nothing that is reached. -/
theorem Disk.reached_ensured : (s.ensured path).reached layout = s.reached layout := by
  rw [reached, reached, destination_of_links (s.links_ensured _), content_ensured]

theorem Disk.node_ensured_current :
    (s.ensured layout.binDir).node layout.current = s.node layout.current :=
  (s.keeps_ensured layout.binDir).node _ fun h => below_ne_binDir (List.mem_singleton.mp h)

section Staged

variable {bytes : List UInt8} {time : Nat}

theorem Disk.node_stagedWith :
    (s.stagedWith layout id bytes time).node (s.stagingPath layout id) =
      some (.file ⟨bytes, time⟩) :=
  node_put

/-- Staging a binary changes no link. -/
theorem Disk.links_stagedWith (hs : s.Stageable layout id) (x target : PathBuf) :
    (s.stagedWith layout id bytes time).node x = some (.link target) ↔
      s.node x = some (.link target) := by
  rw [← s.links_ensured layout.binDir]
  by_cases hx : x = s.stagingPath layout id
  · subst hx
    rw [node_stagedWith]
    obtain hnone | ⟨file, hfile⟩ := hs.2
    · rw [stagingPath, hnone]
      simp
    · rw [stagingPath, hfile]
      simp
  · rw [stagedWith, node_put_of_ne hx]

/-- Staging a binary leaves what is no file. -/
theorem Disk.other_stagedWith (hs : s.Stageable layout id) {x : PathBuf}
    (h : s.node x = some .other) :
    (s.stagedWith layout id bytes time).node x = some .other := by
  have hensured : (s.ensured layout.binDir).node x = some .other := node_ensured_of_some h
  rw [stagedWith, node_put_of_ne, hensured]
  rintro rfl
  obtain hnone | ⟨file, hfile⟩ := hs.2
  · cases hnone.symm.trans hensured
  · cases hfile.symm.trans hensured

theorem Disk.other_of_stagedWith {name : String}
    (h : (s.stagedWith layout id bytes time).node (layout.binDir.below [name]) = some .other) :
    s.node (layout.binDir.below [name]) = some .other := by
  have hne : layout.binDir.below [name] ≠ s.stagingPath layout id := by
    intro heq
    rw [heq, node_stagedWith] at h
    cases h
  rw [stagedWith, node_put_of_ne hne] at h
  have hkept := (s.keeps_ensured layout.binDir).node (layout.binDir.below [name])
    fun h => below_ne_binDir (List.mem_singleton.mp h)
  exact hkept.symm.trans h

theorem Disk.destination_stagedWith (hs : s.Stageable layout id) :
    (s.stagedWith layout id bytes time).destination path = s.destination path :=
  destination_of_links (links_stagedWith hs)

/-- The staged path leads to the new binary. -/
theorem Disk.destination_stagedPath (hs : s.Stageable layout id) :
    (s.stagedWith layout id bytes time).destination (layout.stagedPath id) =
      s.stagingPath layout id := by
  rw [destination_stagedWith hs, stagingPath, destination_of_links (s.links_ensured _)]

/-- A binary that is staged elsewhere than where `current` leads is not reached. -/
theorem Disk.reached_stagedWith (hs : s.Stageable layout id)
    (hapart : s.destination layout.current ≠ s.stagingPath layout id) :
    (s.stagedWith layout id bytes time).reached layout = s.reached layout := by
  rw [reached, destination_stagedWith hs, content, stagedWith, node_put_of_ne hapart]
  exact content_ensured _

/-- A binary that is staged where `current` leads is reached. -/
theorem Disk.reached_stagedWith_self (hs : s.Stageable layout id)
    (hself : s.destination layout.current = s.stagingPath layout id) :
    (s.stagedWith layout id bytes time).reached layout = some bytes := by
  rw [reached, destination_stagedWith hs, hself]
  exact content_of_file node_stagedWith

/-- A binary that is staged elsewhere is not staged in the place of `current`. -/
theorem Disk.stagingPath_ne_current (hs : s.Stageable layout id)
    (hapart : s.destination layout.current ≠ s.stagingPath layout id) :
    s.stagingPath layout id ≠ layout.current := by
  intro heq
  refine hapart ((destination_eq fun target htarget => ?_).trans heq.symm)
  have hlink : (s.stagedWith layout id [] 0).node layout.current = some (.link target) :=
    (links_stagedWith hs _ target).mpr htarget
  rw [← heq, node_stagedWith] at hlink
  cases hlink

theorem Disk.node_stagedWith_current (hs : s.Stageable layout id)
    (hapart : s.destination layout.current ≠ s.stagingPath layout id) :
    (s.stagedWith layout id bytes time).node layout.current = s.node layout.current :=
  (node_put_of_ne (stagingPath_ne_current hs hapart).symm).trans node_ensured_current

end Staged

theorem Disk.ensured_tick : s.tick.ensured path = (s.ensured path).tick := by
  rw [ensured, ensured, node_tick]
  split <;> rfl

theorem Disk.stagedWith_tick {bytes : List UInt8} {time : Nat} :
    s.tick.stagedWith layout id bytes time = (s.stagedWith layout id bytes time).tick := by
  rw [stagedWith, stagingPath, ensured_tick]
  rfl

theorem Disk.stageable_tick : s.tick.Stageable layout id ↔ s.Stageable layout id := by
  rw [Stageable, ensured_tick]
  rfl

theorem Disk.node_cleared_current :
    (s.cleared layout).node layout.current = s.node layout.current :=
  node_remove_of_ne layout.temporary_ne_current.symm

theorem Disk.node_pointed_current :
    (s.pointed layout id).node layout.current = s.node layout.current :=
  (node_put_of_ne layout.temporary_ne_current.symm).trans node_cleared_current

@[simp] theorem Disk.node_swapped_current :
    (s.swapped layout id).node layout.current = some (.link (layout.linkTo id)) :=
  node_put

@[simp] theorem Disk.node_swapped_temporary :
    (s.swapped layout id).node layout.temporary = none :=
  (node_put_of_ne layout.temporary_ne_current).trans node_remove

theorem Disk.node_swapped (hcurrent : path ≠ layout.current)
    (htemporary : path ≠ layout.temporary) : (s.swapped layout id).node path = s.node path := by
  rw [swapped, node_put_of_ne hcurrent, node_remove_of_ne htemporary, pointed,
    node_put_of_ne htemporary, cleared, node_remove_of_ne htemporary]

/-- To swap once more leaves what one swap leaves. -/
theorem Disk.keeps_swapped {prior : String} :
    Keeps [] (s.swapped layout prior) ((s.swapped layout id).swapped layout prior) := by
  refine ⟨fun path _ => ?_, le_rfl⟩
  by_cases hcurrent : path = layout.current
  · rw [hcurrent, node_swapped_current, node_swapped_current]
  by_cases htemporary : path = layout.temporary
  · rw [htemporary, node_swapped_temporary, node_swapped_temporary]
  · rw [node_swapped hcurrent htemporary, node_swapped hcurrent htemporary,
      node_swapped hcurrent htemporary]

end Reached

/-! ## Where nothing is in the way -/

section Sufficient

variable {o : Oracle} {s s' : Disk} {layout : Layout} {id : String} {bytes : List UInt8}
variable {plan : Plan} {fetched : Except String Verified}

theorem Kept.of_aborted {reason : String} (hreached : s'.reached layout = s.reached layout)
    (hcurrent : s'.node layout.current = s.node layout.current) :
    Kept layout s fetched (.abortedBeforeSwap reason) s' where
  aborted _ _ := ⟨hreached, hcurrent⟩
  reverted _ _ _ h := by cases h
  committed _ _ h := by cases h

theorem Kept.of_keeps {reason : String} (h : Keeps [] s s') :
    Kept layout s fetched (.abortedBeforeSwap reason) s' :=
  .of_aborted h.reached (h.node _ (by simp))

theorem Kept.of_manual {reason : String} :
    Kept layout s fetched (.manualIntervention reason) s' where
  aborted _ h := by cases h
  reverted _ _ _ h := by cases h
  committed _ _ h := by cases h

theorem Kept.of_reverted {failed restored reason : String}
    (hreached : s'.reached layout = s.reached layout) :
    Kept layout s fetched (.reverted failed restored reason) s' where
  aborted _ h := by cases h
  reverted _ _ _ _ := hreached
  committed _ _ h := by cases h

theorem Kept.of_committed {verified : Verified} {pruned : Nat}
    (hreached : s'.reached layout = some verified.bytes) :
    Kept layout s (.ok verified) (.committed id pruned) s' where
  aborted _ h := by cases h
  reverted _ _ _ h := by cases h
  committed _ _ _ := ⟨verified, rfl, hreached⟩

theorem giveUp_kept (failed : String) (restored : Option String) (reason : String) :
    wp (disk o) Eq Guarantee.any (Plan.giveUp failed restored reason)
      (fun r s'' => Kept layout s fetched r s'') s' :=
  wp_bind (wp_ask (wp_ret.mpr .of_manual))

/-- Pruning removes files only, and so no link leads elsewhere. -/
theorem Pruned.destination {keep : Nat} (h : Pruned o layout keep s s') (path : PathBuf) :
    s'.destination path = s.destination path := by
  refine Disk.destination_of_links fun x target => ?_
  obtain hsame | ⟨hgone, hnone⟩ := h.keeps x
  · rw [hsame]
  · obtain ⟨file, hfile⟩ := Disk.file_of_mem_gone hgone
    rw [hnone, hfile]
    simp

/-- What is reached after pruning was reached before, and it was not pruned. -/
theorem Pruned.reached_of_reached {keep : Nat} (h : Pruned o layout keep s s')
    (hprunes : o.Prunes) (hlink : ∃ target, s.node layout.current = some (.link target))
    (hreached : s'.reached layout = some bytes) :
    s.reached layout = some bytes ∧ s.destination layout.current ∉ s.gone layout keep := by
  rw [Disk.reached, h.destination] at hreached
  obtain ⟨file, hfile, rfl⟩ := Disk.file_of_content hreached
  obtain hsame | ⟨-, hnone⟩ := h.keeps (s.destination layout.current)
  · refine ⟨Disk.content_of_file (hsame.symm.trans hfile), fun hgone => ?_⟩
    exact nomatch (h.gone hprunes hlink _ hgone).symm.trans hfile
  · exact nomatch hnone.symm.trans hfile

/-- A commit leaves the new binary where `current` leads. -/
theorem commit_kept {s₁ : Disk} {verified : Verified}
    (hleads : s₁.reached plan.layout = some verified.bytes)
    (hstays : s₁.destination plan.layout.current ∉ s₁.gone plan.layout plan.keep) :
    wp (disk o) Eq Guarantee.any (plan.commit id)
      (fun r s' => Kept plan.layout s (.ok verified) r s') s₁ := by
  refine wp_bind (wp_post (fun r s₂ hpruned => ?_) (prune_spec o s₁ plan.layout plan.keep))
  have hreached : s₂.reached plan.layout = some verified.bytes := by
    have hkept := (hpruned.keeps _).resolve_right fun h => hstays h.1
    rw [Disk.reached, hpruned.destination, Disk.content, hkept]
    exact hleads
  cases r with
  | error error => exact wp_ret.mpr (.of_committed hreached)
  | ok removed => exact wp_ret.mpr (.of_committed hreached)

/-- What is taken back leaves `current` leading to what it led to. -/
theorem revert_kept {s₁ : Disk} {prior : Option String}
    (hback : ∀ name, prior = some name →
      (s₁.swapped plan.layout name).reached plan.layout = s.reached plan.layout) :
    wp (disk o) Eq Guarantee.any (plan.revert id prior)
      (fun r s' => Kept plan.layout s fetched r s') s₁ := by
  cases prior with
  | none => exact giveUp_kept _ _ _
  | some prior =>
      refine wp_bind (wp_post (fun r s₂ h => ?_) (activate_outcome o s₁ plan.layout prior))
      cases r with
      | error error => exact giveUp_kept _ _ _
      | ok =>
          obtain ⟨-, rfl⟩ := h
          refine wp_bind (wp_post (fun up s₃ hup => ?_) (bringUp_spec o _ plan))
          cases up with
          | false => exact giveUp_kept _ _ _
          | true =>
              refine wp_bind (wp_ask (wp_ret.mpr (.of_reverted ?_)))
              exact hup.tick.reached.trans (hback prior rfl)

/-- A new binary that is staged is swapped in, kept or taken back. -/
theorem swap_kept {verified : Verified} (hs : s.Stageable plan.layout (plan.newId verified))
    (hseparate : s.Separate plan verified) :
    wp (disk o) Eq Guarantee.any
      (plan.swap (plan.newId verified) (s.activeName plan.layout))
      (fun r s' => Kept plan.layout s (.ok verified) r s')
      (s.withNew plan verified).tick.tick.tick.tick.tick := by
  obtain ⟨hapart, hswappable⟩ := hseparate
  have hreached : (s.withNew plan verified).reached plan.layout = s.reached plan.layout :=
    Disk.reached_stagedWith hs hapart
  have hcurrent : (s.withNew plan verified).node plan.layout.current =
      s.node plan.layout.current := Disk.node_stagedWith_current hs hapart
  refine wp_bind (wp_post (fun r s₂ h => ?_) (activate_outcome o _ plan.layout _))
  cases r with
  | error error =>
      obtain hkept | ⟨hother, hkept⟩ := h
      · exact wp_ret.mpr (.of_aborted (hkept.reached.trans hreached)
          ((hkept.node _ (by simp)).trans hcurrent))
      · have hswappable := hswappable fun h => hother (Disk.other_stagedWith hs h)
        obtain hkept | hkept := hkept
        · exact wp_ret.mpr (.of_aborted (hkept.reached.trans hswappable.cleared)
            ((hkept.node _ (by simp)).trans (Disk.node_cleared_current.trans hcurrent)))
        · exact wp_ret.mpr (.of_aborted (hkept.reached.trans hswappable.pointed)
            ((hkept.node _ (by simp)).trans (Disk.node_pointed_current.trans hcurrent)))
  | ok =>
      obtain ⟨hother, rfl⟩ := h
      have hswappable := hswappable fun h => hother (Disk.other_stagedWith hs h)
      refine wp_bind (wp_post (fun up s₃ hup => ?_) (bringUp_outcome o _ plan))
      cases up with
      | true =>
          obtain rfl | rfl := hup
          · exact commit_kept hswappable.leads hswappable.stays
          · exact commit_kept hswappable.leads hswappable.stays
      | false =>
          refine revert_kept fun prior hprior => ?_
          have hback := hswappable.back prior hprior
          obtain rfl | rfl := hup
          · exact Disk.keeps_swapped.reached.trans hback
          · exact Disk.keeps_swapped.reached.trans hback

/-- Where the new binary has a place of its own, an upgrade does to the link and to what it
leads to what the outcome says. -/
theorem apply_kept (hseparate : ∀ verified, o.fetched s.clock = .ok verified →
      plan.systemdAvailable = true → s.Linked plan.layout →
      s.Stageable plan.layout (plan.newId verified) → s.Separate plan verified) :
    wp (disk o) Eq Guarantee.any plan.apply
      (fun r s' => Kept plan.layout s (o.fetched s.clock) r s') s := by
  refine wp_ite (fun _ => wp_ret.mpr (.of_keeps (Keeps.refl _ s))) fun hsystemd => ?_
  have hsystemd : plan.systemdAvailable = true := by simpa using hsystemd
  refine wp_bind (wp_ask ?_)
  simp only [disk]
  cases hfetched : o.fetched s.clock with
  | error error => exact wp_ret.mpr (.of_keeps (Keeps.refl _ s).tick)
  | ok verified =>
      refine wp_bind (wp_post (fun r s₁ h => ?_) (active_spec o s.tick plan.layout))
      obtain ⟨rfl, hactive, -⟩ := h
      cases r with
      | error error => exact wp_ret.mpr (.of_keeps (Keeps.refl _ s).tick.tick)
      | ok prior =>
          obtain ⟨rfl, hlinked⟩ := hactive prior rfl
          refine wp_bind (wp_post (fun r s₂ h => ?_) (stage_outcome o s.tick.tick plan.layout _ _))
          have hseparate := hseparate verified hfetched hsystemd hlinked
          cases r with
          | error error =>
              obtain hkept | hkept | ⟨hs, left, hkept⟩ := h
              · exact wp_ret.mpr (.of_keeps ((Keeps.refl _ s).tick.tick.trans hkept))
              · rw [Disk.ensured_tick, Disk.ensured_tick] at hkept
                exact wp_ret.mpr (.of_aborted (hkept.reached.trans Disk.reached_ensured)
                  ((hkept.node _ (by simp)).trans Disk.node_ensured_current))
              · rw [Disk.stageable_tick, Disk.stageable_tick] at hs
                rw [Disk.stagedWith_tick, Disk.stagedWith_tick] at hkept
                have hapart := (hseparate hs).apart
                exact wp_ret.mpr (.of_aborted
                  (hkept.reached.trans (Disk.reached_stagedWith hs hapart))
                  ((hkept.node _ (by simp)).trans (Disk.node_stagedWith_current hs hapart)))
          | ok =>
              obtain ⟨hs, rfl⟩ := h
              rw [Disk.stageable_tick, Disk.stageable_tick] at hs
              rw [Disk.stagedWith_tick, Disk.stagedWith_tick]
              exact swap_kept hs (hseparate hs)

end Sufficient

/-! ## A version of its own -/

section Version

variable {s : Disk} {layout : Layout} {name : String} {file : File}

theorem Disk.destination_of_link {path target : PathBuf} (hlink : s.node path = some (.link target))
    (htarget : ∀ next, s.node target ≠ some (.link next)) : s.destination path = target := by
  rw [destination, Node.maxLinks, Node.getLastD_trail_of_link hlink,
    Node.trail_of_not_link htarget]
  rfl

theorem Disk.Active.destination (h : s.Active layout name file) :
    s.destination layout.current = layout.binDir.below [name] :=
  destination_of_link h.link fun _ hlink => nomatch h.file.symm.trans hlink

/-- The active binary is reached. -/
theorem Disk.Active.reached (h : s.Active layout name file) :
    s.reached layout = some file.bytes := by
  rw [Disk.reached, h.destination]
  exact content_of_file h.file

theorem Disk.Active.cleared (h : s.Active layout name file) (hname : isBinaryName name = true) :
    (s.cleared layout).Active layout name file where
  link := node_cleared_current.trans h.link
  file := (node_remove_of_ne (below_ne_of_isLinkName (isLinkName_of_isBinaryName hname)
    (isLinkName_temporary layout))).trans h.file

theorem Disk.Active.pointed (h : s.Active layout name file) (hname : isBinaryName name = true)
    (id : String) : (s.pointed layout id).Active layout name file where
  link := node_pointed_current.trans h.link
  file := (node_put_of_ne (below_ne_of_isLinkName (isLinkName_of_isBinaryName hname)
    (isLinkName_temporary layout))).trans (h.cleared hname).file

/-- A binary is active once the link points at it. -/
theorem Disk.active_swapped (habsolute : layout.binDir.absolute = true)
    (hname : isBinaryName name = true)
    (hfile : s.node (layout.binDir.below [name]) = some (.file file)) :
    (s.swapped layout name).Active layout name file := by
  have hlink := isLinkName_of_isBinaryName hname
  refine ⟨?_, (node_swapped ?_ ?_).trans hfile⟩
  · rw [node_swapped_current, Layout.linkTo_of_absolute habsolute,
      stagedPath_of_isBinaryName layout hname]
  · exact below_ne_of_isLinkName hlink (by decide)
  · exact below_ne_of_isLinkName hlink (isLinkName_temporary layout)

/-- In an absolute directory, an upgrade to another version than the active one keeps apart from
it. -/
theorem Disk.Active.separate {plan : Plan} {verified : Verified}
    (habsolute : plan.layout.binDir.absolute = true) (h : s.Active plan.layout name file)
    (hname : isBinaryName name = true)
    (hid : isBinaryName (plan.newId verified) = true) (hne : plan.newId verified ≠ name)
    (hlink : ∀ target, s.node (plan.layout.stagedPath (plan.newId verified)) ≠
      some (.link target))
    (hs : s.Stageable plan.layout (plan.newId verified)) : s.Separate plan verified := by
  have hpath : s.newPath plan verified = plan.layout.binDir.below [plan.newId verified] := by
    rw [← stagedPath_of_isBinaryName plan.layout hid]
    exact destination_eq fun target => (s.links_ensured _ _ _).not.mpr (hlink target)
  have hother : plan.layout.binDir.below [name] ≠ s.newPath plan verified := by
    rw [hpath]
    exact fun heq => hne (PathBuf.below_injective _ heq).symm
  have hapart : s.destination plan.layout.current ≠ s.newPath plan verified :=
    h.destination ▸ hother
  have hactive : (s.withNew plan verified).Active plan.layout name file := by
    refine ⟨(node_stagedWith_current hs hapart).trans h.link, (node_put_of_ne hother).trans ?_⟩
    exact node_ensured_of_some h.file
  have hnew : ((s.withNew plan verified).swapped plan.layout (plan.newId verified)).Active
      plan.layout (plan.newId verified) ⟨verified.bytes, s.clock + 3⟩ :=
    active_swapped habsolute hid (hpath ▸ node_stagedWith)
  refine ⟨hapart, fun _ => ?_⟩
  constructor
  case cleared => rw [(hactive.cleared hname).reached, h.reached]
  case pointed => rw [(hactive.pointed hname _).reached, h.reached]
  case leads => exact hnew.reached
  case stays =>
    rw [hnew.destination]
    exact not_mem_gone_of_link hid hnew.link
  case back =>
    intro prior hprior
    have hdots : name ≠ ".." := by
      rintro rfl
      exact absurd hname (by decide)
    rw [activeName, h.link] at hprior
    obtain rfl : name = prior :=
      Option.some.inj ((PathBuf.fileName_below plan.layout.binDir hdots).symm.trans hprior)
    rw [(active_swapped habsolute hname hactive.file).reached, h.reached]

end Version

end Fraisier.SelfUpgrade
