import LiveMarkup.Proofs.Patch.Create

/-!
# Patching a tree over another

Patching reuses the nodes of the old tree where it can and makes new ones where it cannot. What is
left shows the new tree in the place of the old one, and nothing outside the old tree changes but for
the slot of its root.

* `Surface.exactBut`: all nodes but the reused ones carry exactly the attributes of a tree.
* `Patch.Placed`, `Patch.PlacedAll`: the effect of putting a tree in the place of a child, and trees in
  the place of the last children.
* `Patch.update_text`, `Patch.update_element`, …: the equations of `Patch.update` on trees with nodes.
* **`Patch.placed_update`**: what `Patch.update` does over a tree that is shown by distinct nodes.
* **`Patch.placed_mount`**: what `Patch.mount` does at any node that has a parent.
-/

namespace LiveMarkup

namespace Surface

variable {s s' : Surface} {fits : NodeId → Attributes → Attributes → Prop}

/-- The attributes that a node carries, if it is an element. -/
def attributes? (s : Surface) (x : NodeId) : Option Attributes :=
  (s.content? x).bind Content.attributes?

/-- All nodes but the reused ones carry exactly the attributes of the tree. -/
def exactBut (reused : List NodeId) (x : NodeId) (carried attributes : Attributes) : Prop :=
  x ∉ reused → carried = attributes

theorem Keeps.attributes? {contents links : List NodeId} (h : s.Keeps s' contents links)
    {x : NodeId} (hx : x.index < s.allocated) (hn : x ∉ contents) :
    s'.attributes? x = s.attributes? x := by
  rw [Surface.attributes?, Surface.attributes?, h.content x hx hn]

mutual

/-- The children of the nodes of a tree are the handles below its root. -/
theorem Shows.children_subset {id q c : NodeId} {t : Tree} (h : s.Shows fits id t)
    (hq : q ∈ t.handles) (hc : c ∈ s.children q) : c ∈ Tree.handlesList t.children := by
  cases h with
  | text id content data leaf =>
    simp only [Tree.handles, Option.toList_some, List.mem_singleton] at hq
    rw [hq, leaf] at hc
    exact absurd hc List.not_mem_nil
  | element id tag carried attributes children data fit below =>
    rcases List.mem_cons.1 hq with rfl | hq
    · exact below.subset_handles c hc
    · exact below.children_subset hq hc

theorem ShowsAll.children_subset {q c : NodeId} {ids : List NodeId} {ts : List Tree}
    (h : s.ShowsAll fits ids ts) (hq : q ∈ Tree.handlesList ts) (hc : c ∈ s.children q) :
    c ∈ Tree.handlesList ts := by
  cases h with
  | nil => exact absurd hq List.not_mem_nil
  | cons id ids t ts head tail =>
    rcases List.mem_append.1 hq with hq | hq
    · have hsub : ∀ x ∈ Tree.handlesList t.children, x ∈ t.handles := by
        cases t with
        | text => exact fun x hx => absurd hx List.not_mem_nil
        | element => exact fun x hx => List.mem_append_right _ hx
      exact List.mem_append_left _ (hsub c (head.children_subset hq hc))
    · exact List.mem_append_right _ (tail.children_subset hq hc)

end

/-- The parent of the root is none of the nodes of a tree that is shown by distinct nodes. -/
theorem Shows.parent_not_mem {id q : NodeId} {t : Tree} (h : s.Shows fits id t)
    (nodup : t.handles.Nodup) (hid : id ∈ s.children q) : q ∉ t.handles := by
  intro hq
  have hbelow := h.children_subset hq hid
  cases h with
  | text => exact List.not_mem_nil hbelow
  | element => exact (List.nodup_cons.1 nodup).1 hbelow

end Surface

namespace Patch

open Surface

/-- A tree in the place of a child of a node: the surface after it, the node that shows the tree, and
the tree with its handles. Of the nodes that there were, it may use some. -/
structure Placed (s : Surface) (q id : NodeId) (reused : List NodeId) (new : Tree) (s' : Surface)
    (id' : NodeId) (t' : Tree) : Prop where
  linked : s'.Linked
  detached : t'.detached = new.detached
  shows_but : s'.Shows (exactBut reused) id' t'
  handles : ∀ x ∈ t'.handles, x ∈ reused ∨ s.allocated ≤ x.index
  nodup : t'.handles.Nodup
  keeps : s.Keeps s' reused (q :: reused)
  attributes : ∀ x : NodeId, x.index < s.allocated → s'.attributes? x = s.attributes? x
  place : ∀ pre post, s.children q = pre ++ id :: post → s'.children q = pre ++ id' :: post

/-- Trees in the place of the last children of a node, those after the first few. -/
structure PlacedAll (s : Surface) (q : NodeId) (pre reused : List NodeId) (news : List Tree)
    (s' : Surface) (ts' : List Tree) : Prop where
  linked : s'.Linked
  detached : Tree.detachedList ts' = Tree.detachedList news
  shows_but : ∃ ids, s'.children q = pre ++ ids ∧ s'.ShowsAll (exactBut reused) ids ts'
  handles : ∀ x ∈ Tree.handlesList ts', x ∈ reused ∨ s.allocated ≤ x.index
  nodup : (Tree.handlesList ts').Nodup
  keeps : s.Keeps s' reused (q :: reused)
  attributes : ∀ x : NodeId, x.index < s.allocated → s'.attributes? x = s.attributes? x

@[simp] theorem surface_count (p : Patch) (change : PatchReport → PatchReport) :
    (p.count change).surface = p.surface := rfl

@[simp] theorem surface_onSurface (p : Patch) (change : Surface → Surface) :
    (p.onSurface change).surface = change p.surface := rfl

section

variable {s s₁ s₂ : Surface} {q id id' : NodeId} {reused reused' pre post ids : List NodeId}
  {t t' : Tree} {ts ts' : List Tree} {fits : NodeId → Attributes → Attributes → Prop}

/-- More nodes may have been used. -/
theorem Placed.weaken (h : Placed s q id reused t s₁ id' t') (hsub : ∀ x ∈ reused, x ∈ reused') :
    Placed s q id reused' t s₁ id' t' where
  linked := h.linked
  detached := h.detached
  shows_but := h.shows_but.mono fun x _ a b e hx => e fun hm => hx (hsub x hm)
  handles x hx := (h.handles x hx).imp_left (hsub x)
  nodup := h.nodup
  keeps := h.keeps.weaken hsub fun x hx => by
    rcases List.mem_cons.1 hx with rfl | hx
    · exact List.mem_cons_self
    · exact List.mem_cons_of_mem _ (hsub x hx)
  attributes := h.attributes
  place := h.place

/-! ## Building in the place of a node -/

theorem after_append (h : id ∉ pre) : after id (pre ++ id :: post) = post.head? := by
  induction pre with
  | nil => simp [after]
  | cons c pre ih =>
    obtain ⟨hc, hpre⟩ := not_or.1 (mt List.mem_cons.2 h)
    rw [List.cons_append, after, if_neg (Ne.symm hc), ih hpre]

/-- A node placed before another or right after it takes its position when that one is removed. -/
theorem filter_place {r : Option NodeId} (h : (pre ++ id :: post).Nodup)
    (hr : r = some id ∨ r = post.head?) (hne : id' ≠ id) :
    (place r id' (pre ++ id :: post)).filter (· ≠ id) = pre ++ id' :: post := by
  obtain ⟨hpre, hcons, hdisj⟩ := List.nodup_append.1 h
  have hidpre : id ∉ pre := fun hm => hdisj id hm id List.mem_cons_self rfl
  have hidpost : id ∉ post := (List.nodup_cons.1 hcons).1
  have keep : ∀ l : List NodeId, id ∉ l → l.filter (· ≠ id) = l := fun l hl =>
    List.filter_eq_self.2 fun x hx => by simpa using fun e : x = id => hl (e ▸ hx)
  have htake : ((pre ++ [id']) ++ id :: post).filter (· ≠ id) = pre ++ id' :: post := by
    rw [List.filter_append, keep _ (by simp [hidpre, hne.symm]), List.filter_cons_of_neg (by simp),
      keep _ hidpost, List.append_assoc]
    rfl
  rcases hr with rfl | rfl
  · rw [show place (some id) id' (pre ++ id :: post) = pre ++ id' :: id :: post from
      placeBefore_append id' hidpre post, ← htake, List.append_assoc]
    rfl
  · have hafter : place post.head? id' (pre ++ id :: post) = pre ++ id :: id' :: post := by
      cases post with
      | nil => simp [place]
      | cons c post =>
        have hc : c ∉ pre ++ [id] := by
          intro hm
          rcases List.mem_append.1 hm with hm | hm
          · exact hdisj c hm c (by simp) rfl
          · exact hidpost (by simp [List.mem_singleton.1 hm])
        have := placeBefore_append id' hc post
        rwa [List.append_assoc, List.append_assoc] at this
    rw [hafter, List.filter_append, keep _ hidpre, List.filter_cons_of_neg (by simp),
      keep _ (by simp [hidpost, hne.symm])]

theorem removeChild_of_parent? (hq : s.parent? id = some q) :
    s.removeChild q id = (s.detach id).record (.remove q id) := by
  rw [removeChild, if_pos hq]

/-- A node keeps its parent when a new tree is put next to it. -/
theorem Built.parent?_insertBefore (h : Built s t s₁ id' t') (hs : s.Linked)
    (hq : s.parent? id = some q) (r : Option NodeId) :
    (s₁.insertBefore q id' r).parent? id = some q := by
  have hid := lt_of_parent? hq
  have hqlt := lt_of_mem_children (hs.mem_children_iff.2 hq)
  have hqlt₁ := Nat.lt_of_lt_of_le hqlt h.keeps.grows
  rw [insertBefore, parent?_record, parent?_attach hqlt₁ h.lt_allocated (h.ne_of_lt hqlt),
    if_neg (h.ne_of_lt hid), h.parent id (Nat.le_of_lt hid), hq]

/-- A tree built and put next to a node that is then removed takes its place. -/
theorem Built.placed {r : Option NodeId} (h : Built s t s₁ id' t') (hs : s.Linked)
    (hq : s.parent? id = some q)
    (hr : r = some id ∨ ∀ pre post, s.children q = pre ++ id :: post → r = post.head?) :
    Placed s q id [] t ((s₁.insertBefore q id' r).removeChild q id) id' t' := by
  have hqlt := lt_of_mem_children (hs.mem_children_iff.2 hq)
  have hqlt₁ := Nat.lt_of_lt_of_le hqlt h.keeps.grows
  have hidne := h.ne_of_lt (lt_of_parent? hq)
  have hattach := h.parent?_insertBefore hs hq r
  have hremoved := removeChild_of_parent? hattach
  have hchildren : ∀ x, ((s₁.insertBefore q id' r).removeChild q id).children x =
      if x = q then (place r id' (s₁.children q)).filter (· ≠ id) else s₁.children x := by
    intro x
    rw [hremoved, children_record, children_detach, hattach, insertBefore, children_record,
      children_attach hqlt₁ h.lt_allocated (h.ne_of_lt hqlt),
      detach_of_parent?_eq_none h.orphan]
    by_cases hx : x = q
    · simp [hx]
    · simp [hx, Ne.symm hx]
  have hcontent : ∀ x, ((s₁.insertBefore q id' r).removeChild q id).content? x = s₁.content? x := by
    intro x
    rw [hremoved, content?_record, content?_detach, insertBefore, content?_record, content?_attach]
  have halloc : ((s₁.insertBefore q id' r).removeChild q id).allocated = s₁.allocated := by
    rw [hremoved, allocated_record, allocated_detach, insertBefore, allocated_record,
      allocated_attach]
  have hkeeps : s.Keeps ((s₁.insertBefore q id' r).removeChild q id) [] [q] := by
    refine ⟨by rw [halloc]; exact h.keeps.grows, fun x hx hn => ?_, fun x hx hn => ?_⟩
    · rw [hcontent, h.keeps.content x hx hn]
    · rw [hchildren, if_neg (by simpa using hn), h.keeps.children x hx (by simp)]
  refine ⟨?_, h.detached, ?_, ?_, ?_, hkeeps, fun x hx => hkeeps.attributes? hx (by simp), ?_⟩
  · rw [hremoved]
    exact (((h.linked.attach hqlt₁ h.lt_allocated (h.ne_of_lt hqlt)).record _).detach id).record _
  · refine h.shows_exact.transport (fun x _ => hcontent x) (fun x hx => ?_) fun x _ a b e _ => e
    rw [h.handles, mem_fresh_iff] at hx
    rw [hchildren, if_neg]
    rintro rfl
    omega
  · intro x hx
    rw [h.handles, mem_fresh_iff] at hx
    exact .inr hx.1
  · rw [h.handles]
    exact nodup_fresh _ _
  · intro pre post hsplit
    have hnodup := hs.nodup_children q
    rw [hsplit] at hnodup
    rw [hchildren, if_pos rfl, h.keeps.children q hqlt (by simp), hsplit,
      filter_place hnodup (hr.imp_right fun hr => hr pre post hsplit) hidne.symm]

/-- A first paint that succeeds replaces a node that has a parent. -/
theorem attached_of_mount {p : Patch} {target : NodeId} {new : Tree}
    (h : (p.mount target new).error = none) : ∃ q, p.surface.parent? target = some q := by
  unfold mount at h
  cases hq : p.surface.parent? target with
  | none =>
    rw [hq] at h
    cases h
  | some q => exact ⟨q, rfl⟩

/-- **First paint puts a tree in the place of a node.** -/
theorem placed_mount (p : Patch) (target : NodeId) (new : Tree) (h : p.surface.Linked)
    (hq : p.surface.parent? target = some q) :
    (p.mount target new).error = none ∧
      ∃ id', Placed p.surface q target [] new (p.mount target new).patch.surface id'
        (p.mount target new).tree := by
  unfold mount
  rw [hq]
  refine ⟨rfl, (p.create new).1, (built_create p new h).placed h hq (.inr fun pre post hsplit => ?_)⟩
  have hnodup := h.nodup_children q
  rw [hsplit] at hnodup
  have hpre : target ∉ pre := fun hm =>
    (List.nodup_append.1 hnodup).2.2 target hm target List.mem_cons_self rfl
  rw [nextSibling?, hq, Option.bind_some, hsplit, after_append hpre]

theorem placed_replace (p : Patch) (new : Tree) (h : p.surface.Linked)
    (hq : p.surface.parent? id = some q) :
    (p.replace id new).error = none ∧
      ∃ id', Placed p.surface q id [] new (p.replace id new).patch.surface id'
        (p.replace id new).tree := by
  unfold replace
  rw [hq]
  exact ⟨rfl, (p.create new).1, (built_create p new h).placed h hq (.inl rfl)⟩

/-! ## Lists of children -/

/-- What is built at the end of a list of children is in no one's place. -/
theorem BuiltUnder.placedAll (h : BuiltUnder s q ts s₁ ts')
    (hpre : s.children q = pre) : PlacedAll s q pre [] ts s₁ ts' := by
  obtain ⟨ids, hids, hshows⟩ := h.shows_exact
  refine ⟨h.linked, h.detached, ⟨ids, by rw [hids, hpre], hshows.mono fun _ _ _ _ e _ => e⟩,
    fun x hx => ?_, ?_, h.keeps, fun x hx => h.keeps.attributes? hx (by simp)⟩
  · rw [h.handles, mem_fresh_iff] at hx
    exact .inr hx.1
  · rw [h.handles]
    exact nodup_fresh _ _

theorem PlacedAll.weaken (h : PlacedAll s q pre reused ts s₁ ts')
    (hsub : ∀ x ∈ reused, x ∈ reused') : PlacedAll s q pre reused' ts s₁ ts' := by
  obtain ⟨ids, hids, hshows⟩ := h.shows_but
  refine ⟨h.linked, h.detached, ⟨ids, hids, hshows.mono fun x _ a b e hx => e fun hm => hx (hsub x hm)⟩,
    fun x hx => (h.handles x hx).imp_left (hsub x), h.nodup, h.keeps.weaken hsub fun x hx => ?_,
    h.attributes⟩
  rcases List.mem_cons.1 hx with rfl | hx
  · exact List.mem_cons_self
  · exact List.mem_cons_of_mem _ (hsub x hx)

theorem filter_ne_append (h : (pre ++ id :: post).Nodup) :
    (pre ++ id :: post).filter (· ≠ id) = pre ++ post := by
  obtain ⟨hpre, hcons, hdisj⟩ := List.nodup_append.1 h
  have keep : ∀ l : List NodeId, id ∉ l → l.filter (· ≠ id) = l := fun l hl =>
    List.filter_eq_self.2 fun x hx => by simpa using fun e : x = id => hl (e ▸ hx)
  rw [List.filter_append, keep pre fun hm => hdisj id hm id List.mem_cons_self rfl,
    List.filter_cons_of_neg (by simp), keep post (List.nodup_cons.1 hcons).1]

/-- A child is taken away: the removal is recorded, and the other children stay in their order. -/
theorem removeChild_of_children (h : s.Linked) (hids : s.children q = pre ++ id :: post) :
    s.removeChild q id = (s.detach id).record (.remove q id) ∧ (s.removeChild q id).Linked ∧
      (s.removeChild q id).children q = pre ++ post := by
  have hparent : s.parent? id = some q := by rw [← h.mem_children_iff, hids]; simp
  have hnodup := h.nodup_children q
  rw [hids] at hnodup
  have hremoved := removeChild_of_parent? hparent
  refine ⟨hremoved, ?_, ?_⟩
  · rw [hremoved]
    exact (h.detach id).record _
  · rw [hremoved, children_record, children_detach, hparent, if_pos rfl, hids,
      filter_ne_append hnodup]

/-- Old trees at the end of a list of children are taken away. -/
theorem placedAll_removeOld (p : Patch) (ts : List Tree) (h : p.surface.Linked)
    (hts : ts.map Tree.handle = ids.map some) (hids : p.surface.children q = pre ++ ids) :
    (p.removeOld q ts).2 = none ∧
      PlacedAll p.surface q pre [] [] (p.removeOld q ts).1.surface [] := by
  induction ts generalizing p ids with
  | nil =>
    cases List.map_eq_nil_iff.1 hts.symm
    exact ⟨rfl, h, rfl, ⟨[], hids, .nil⟩, fun x hx => absurd hx List.not_mem_nil, List.nodup_nil,
      .refl _ _ _, fun _ _ => rfl⟩
  | cons t ts ih =>
    obtain ⟨id, ids, rfl, ht, hts⟩ := List.map_eq_cons_iff.1 hts.symm
    obtain ⟨hremove, hlinked, hchildren⟩ := removeChild_of_children h hids
    have hkeeps : p.surface.Keeps (p.surface.removeChild q id) [] [q] := by
      rw [hremove]
      refine ⟨by simp, fun x _ _ => by simp, fun x _ hx => ?_⟩
      have hparent : p.surface.parent? id = some q := by rw [← h.mem_children_iff, hids]; simp
      rw [children_record, children_detach, hparent, if_neg]
      rintro ⟨⟩
      exact hx List.mem_cons_self
    obtain ⟨hnone, rest⟩ := ih ((p.onSurface fun s => s.removeChild q id).count
      fun r => { r with removed := r.removed + 1 }) hlinked hts.symm hchildren
    rw [removeOld, ← ht]
    refine ⟨hnone, rest.linked, rest.detached, rest.shows_but, fun x hx => absurd hx List.not_mem_nil,
      List.nodup_nil, hkeeps.trans rest.keeps (fun _ hx _ => hx) fun _ hx _ => hx, fun x hx => ?_⟩
    rw [rest.attributes x (Nat.lt_of_lt_of_le hx hkeeps.grows)]
    exact hkeeps.attributes? hx (by simp)

/-- Trees that share no node with the one that was patched are shown as before. -/
theorem Placed.showsAll (head : Placed s q id reused t s₁ id' t') (tail : s.ShowsAll fits ids ts)
    (hdisj : ∀ x ∈ reused, ∀ y ∈ Tree.handlesList ts, x ≠ y) (hq : q ∉ Tree.handlesList ts) :
    s₁.ShowsAll fits ids ts := by
  refine tail.transport (fun x hx => ?_) (fun x hx => ?_) fun _ _ _ _ e => e
  · exact head.keeps.content x (tail.allocated x hx) fun hm => hdisj x hm x hx rfl
  · refine head.keeps.children x (tail.allocated x hx) fun hm => ?_
    rcases List.mem_cons.1 hm with rfl | hm
    · exact hq hx
    · exact hdisj x hm x hx rfl

/-- A tree in the place of the first child, and others in the places of the rest. -/
theorem PlacedAll.cons {old : Tree} {olds : List Tree}
    (hold : s.ShowsAll fits (id :: ids) (old :: olds))
    (hnodup : (Tree.handlesList (old :: olds)).Nodup) (hq : q ∉ Tree.handlesList (old :: olds))
    (hids : s.children q = pre ++ id :: ids) (head : Placed s q id old.handles t s₁ id' t')
    (tail : PlacedAll s₁ q (pre ++ [id']) (Tree.handlesList olds) ts s₂ ts') :
    PlacedAll s q pre (Tree.handlesList (old :: olds)) (t :: ts) s₂ (t' :: ts') := by
  obtain ⟨ids', hids', hshows⟩ := tail.shows_but
  have hlt : ∀ x ∈ Tree.handlesList olds, x.index < s.allocated := fun x hx =>
    hold.allocated x (List.mem_append_right _ hx)
  obtain ⟨-, -, hdisj⟩ := List.nodup_append.1 hnodup
  have hqlt : q.index < s.allocated := lt_of_mem_children (c := id) (by rw [hids]; simp)
  -- The nodes of the first tree are not among those that the rest may use.
  have hapart : ∀ x ∈ t'.handles, x ∉ Tree.handlesList olds ∧ x ≠ q := by
    intro x hx
    rcases head.handles x hx with hx | hx
    · refine ⟨fun hm => hdisj x hx x hm rfl, fun e => hq (List.mem_append_left _ (e ▸ hx))⟩
    · refine ⟨fun hm => ?_, fun e => ?_⟩
      · have := hlt x hm
        omega
      · rw [e] at hx
        omega
  refine ⟨tail.linked, ?_, ⟨id' :: ids', ?_, .cons _ _ _ _ ?_ (hshows.mono ?_)⟩, ?_, ?_, ?_, ?_⟩
  · rw [Tree.detachedList, head.detached, tail.detached, Tree.detachedList]
  · rw [hids', List.append_assoc]
    rfl
  · refine head.shows_but.transport (fun x hx => ?_) (fun x hx => ?_) fun x _ a b e hn => ?_
    · exact tail.keeps.content x (head.shows_but.allocated x hx) (hapart x hx).1
    · refine tail.keeps.children x (head.shows_but.allocated x hx) fun hm => ?_
      rcases List.mem_cons.1 hm with hm | hm
      · exact (hapart x hx).2 hm
      · exact (hapart x hx).1 hm
    · exact e fun hm => hn (List.mem_append_left _ hm)
  · exact fun x _ a b e hn => e fun hm => hn (List.mem_append_right _ hm)
  · intro x hx
    rcases List.mem_append.1 hx with hx | hx
    · exact (head.handles x hx).imp_left (List.mem_append_left _)
    · rcases tail.handles x hx with hx | hx
      · exact .inl (List.mem_append_right _ hx)
      · exact .inr (Nat.le_trans head.keeps.grows hx)
  · refine List.nodup_append.2 ⟨head.nodup, tail.nodup, fun x hx y hy e => ?_⟩
    subst e
    rcases tail.handles x hy with hy | hy
    · exact (hapart x hx).1 hy
    · have := head.shows_but.allocated x hx
      omega
  · refine (head.keeps.weaken (fun x hx => List.mem_append_left _ hx) fun x hx => ?_).trans tail.keeps
      (fun x hx _ => List.mem_append_right _ hx) fun x hx _ => ?_
    · rcases List.mem_cons.1 hx with rfl | hx
      · exact List.mem_cons_self
      · exact List.mem_cons_of_mem _ (List.mem_append_left _ hx)
    · rcases List.mem_cons.1 hx with rfl | hx
      · exact List.mem_cons_self
      · exact List.mem_cons_of_mem _ (List.mem_append_right _ hx)
  · intro x hx
    rw [tail.attributes x (Nat.lt_of_lt_of_le hx head.keeps.grows), head.attributes x hx]

/-! ## Reused nodes -/

/-- An element whose node is reused keeps its position. -/
theorem PlacedAll.element {tag : String} {carried attributes : Attributes} {olds : List Tree}
    (handle : Option NodeId) (h : PlacedAll s id [] (Tree.handlesList olds) ts s₁ ts')
    (hdata : s.content? id = some (.element tag carried)) (hid : id ∉ Tree.handlesList olds)
    (hq : q ∉ id :: Tree.handlesList olds) (hqlt : q.index < s.allocated) :
    Placed s q id (id :: Tree.handlesList olds) (.element tag attributes ts handle) s₁ id
      (.element tag attributes ts' (some id)) := by
  obtain ⟨ids, hids, hshows⟩ := h.shows_but
  have hlt := lt_of_content? hdata
  refine ⟨h.linked, ?_, ?_, ?_, ?_, ?_, h.attributes, ?_⟩
  · rw [Tree.detached, h.detached, Tree.detached]
  · refine .element id tag carried attributes ts' ?_ (fun hn => absurd List.mem_cons_self hn) ?_
    · rw [h.keeps.content id hlt hid, hdata]
    · rw [hids]
      exact hshows.mono fun x _ a b e hn => e fun hm => hn (List.mem_cons_of_mem _ hm)
  · intro x hx
    rcases List.mem_cons.1 hx with rfl | hx
    · exact .inl List.mem_cons_self
    · exact (h.handles x hx).imp_left (List.mem_cons_of_mem _)
  · refine List.nodup_cons.2 ⟨fun hm => ?_, h.nodup⟩
    rcases h.handles id hm with hm | hm
    · exact hid hm
    · exact absurd hlt (Nat.not_lt_of_le hm)
  · exact h.keeps.weaken (fun x hx => List.mem_cons_of_mem _ hx)
      fun x hx => List.mem_cons_of_mem _ hx
  · intro pre post hsplit
    rw [h.keeps.children q hqlt hq, hsplit]

/-- A text whose node is reused keeps its position. -/
theorem Placed.text {content : String} (handle : Option NodeId) (h : s.Linked)
    (hs : s₁ = s ∨ s₁ = (s.modify id fun n => { n with content := .text content }).record
      (.setText id content))
    (hdata : s₁.content? id = some (.text content)) (hleaf : s.children id = [])
    (hold : s.attributes? id = none) :
    Placed s q id [id] (.text content handle) s₁ id (.text content (some id)) := by
  have halloc : s₁.allocated = s.allocated := by rcases hs with rfl | rfl <;> simp
  have hchildren : ∀ x, s₁.children x = s.children x := by
    intro x
    rcases hs with rfl | rfl <;> simp
  have hparent : ∀ x, s₁.parent? x = s.parent? x := by
    intro x
    rcases hs with rfl | rfl <;> simp
  have hcontent : ∀ x, x ≠ id → s₁.content? x = s.content? x := by
    intro x hx
    rcases hs with rfl | rfl
    · rfl
    · rw [content?_record, content?_modify_content, if_neg hx]
  refine ⟨h.congr hparent hchildren, rfl, .text id content hdata ((hchildren id).trans hleaf),
    fun x hx => .inl hx, by simp [Tree.handles],
    ⟨Nat.le_of_eq halloc.symm, fun x _ hx => hcontent x (by simpa using hx),
      fun x _ _ => hchildren x⟩, fun x _ => ?_, fun pre post hsplit => (hchildren q).trans hsplit⟩
  by_cases hx : x = id
  · rw [hx, hold, attributes?, hdata]
    rfl
  · rw [attributes?, hcontent x hx, attributes?]

end

/-! ## Equations -/

section Equations

variable {before content tag tag' : String} {attributes attributes' : Attributes}
  {olds news : List Tree} {old new : Tree} {q id : NodeId} {handle : Option NodeId}

/-- One more tree has been compared with an old one. -/
def compared (p : Patch) : Patch := p.count fun r => { r with patched := r.patched + 1 }

@[simp] theorem surface_compared (p : Patch) : p.compared.surface = p.surface := rfl

theorem update_text_self (p : Patch) :
    p.update (.text content (some id)) (.text content handle) =
      ⟨p.compared, .text content (some id), none⟩ := by
  rw [update]
  simp only [Tree.handle, if_true]
  rfl

theorem update_text (p : Patch) (hne : before ≠ content) :
    p.update (.text before (some id)) (.text content handle) =
      ⟨(p.compared.onSurface fun s => s.setText id content).count
        fun r => { r with textWrites := r.textWrites + 1 }, .text content (some id), none⟩ := by
  rw [update]
  simp only [Tree.handle, hne, if_false]
  rfl

theorem update_element (p : Patch) :
    p.update (.element tag attributes olds (some id)) (.element tag attributes' news handle) =
      ⟨(p.compared.updateChildren id olds news).patch,
        .element tag attributes' (p.compared.updateChildren id olds news).tree (some id),
        (p.compared.updateChildren id olds news).error⟩ := by
  rw [update]
  simp only [Tree.handle, if_true]
  rfl

theorem update_element_of_ne (p : Patch) (hne : tag ≠ tag') :
    p.update (.element tag attributes olds (some id)) (.element tag' attributes' news handle) =
      p.compared.replace id (.element tag' attributes' news handle) := by
  rw [update]
  simp only [Tree.handle, hne, if_false]
  rfl

theorem update_text_element (p : Patch) :
    p.update (.text before (some id)) (.element tag attributes news handle) =
      p.compared.replace id (.element tag attributes news handle) := by
  rw [update]
  rfl

theorem update_element_text (p : Patch) :
    p.update (.element tag attributes olds (some id)) (.text content handle) =
      p.compared.replace id (.text content handle) := by
  rw [update]
  rfl

/-- After the first child the others are patched. -/
theorem updateChildren_cons (p : Patch) (hnone : (p.update old new).error = none) :
    p.updateChildren q (old :: olds) (new :: news) =
      ⟨((p.update old new).patch.updateChildren q olds news).patch,
        (p.update old new).tree :: ((p.update old new).patch.updateChildren q olds news).tree,
        ((p.update old new).patch.updateChildren q olds news).error⟩ := by
  rw [updateChildren]
  simp only [hnone]

end Equations

/-! ## Whole trees -/

mutual

/-- **Patching a tree over one that is shown succeeds and leaves the new one in its place.** -/
theorem placed_update (p : Patch) (old new : Tree) {q id : NodeId}
    {fits : NodeId → Attributes → Attributes → Prop} (h : p.surface.Linked)
    (shows : p.surface.Shows fits id old) (nodup : old.handles.Nodup)
    (child : id ∈ p.surface.children q) (outside : q ∉ old.handles) :
    (p.update old new).error = none ∧
      ∃ id', Placed p.surface q id old.handles new (p.update old new).patch.surface id'
        (p.update old new).tree := by
  have hparent : p.surface.parent? id = some q := h.mem_children_iff.1 child
  have hreplace : ∀ p' : Patch, p'.surface = p.surface → (p'.replace id new).error = none ∧
      ∃ id', Placed p.surface q id old.handles new (p'.replace id new).patch.surface id'
        (p'.replace id new).tree := by
    intro p' hp'
    obtain ⟨hnone, id', hplaced⟩ := placed_replace p' new (hp' ▸ h) (hp' ▸ hparent)
    rw [hp'] at hplaced
    exact ⟨hnone, id', hplaced.weaken fun x hx => absurd hx List.not_mem_nil⟩
  cases shows with
  | text id before data leaf =>
    have hold : p.surface.attributes? id = none := by rw [attributes?, data]; rfl
    cases new with
    | text content handle =>
      by_cases heq : before = content
      · subst heq
        rw [update_text_self]
        exact ⟨rfl, id, .text handle h (.inl rfl) data leaf hold⟩
      · rw [update_text p heq]
        refine ⟨rfl, id, .text handle h (.inr ?_) ?_ leaf hold⟩
        · simp [setText, data]
        · simp [setText, data, content?_modify_content]
    | element tag attributes children handle =>
      rw [update_text_element]
      exact hreplace _ rfl
  | element id tag carried attributes olds data fit below =>
    cases new with
    | text content handle =>
      rw [update_element_text]
      exact hreplace _ rfl
    | element tag' attributes' news handle =>
      by_cases htag : tag = tag'
      · subst htag
        have hnodup := List.nodup_cons.1 nodup
        obtain ⟨hnone, hall⟩ := placedAll_updateChildren p.compared olds news [] h below hnodup.2 rfl
          (lt_of_content? data) hnodup.1
        rw [update_element]
        exact ⟨hnone, id, hall.element handle data hnodup.1 outside (lt_of_mem_children child)⟩
      · rw [update_element_of_ne p htag]
        exact hreplace _ rfl

/-- Patching a list of children leaves the new ones in the place of the old. -/
theorem placedAll_updateChildren (p : Patch) (olds news : List Tree) {q : NodeId}
    (pre : List NodeId) {ids : List NodeId} {fits : NodeId → Attributes → Attributes → Prop}
    (h : p.surface.Linked) (shows : p.surface.ShowsAll fits ids olds)
    (nodup : (Tree.handlesList olds).Nodup) (hids : p.surface.children q = pre ++ ids)
    (hq : q.index < p.surface.allocated) (outside : q ∉ Tree.handlesList olds) :
    (p.updateChildren q olds news).error = none ∧
      PlacedAll p.surface q pre (Tree.handlesList olds) news
        (p.updateChildren q olds news).patch.surface (p.updateChildren q olds news).tree := by
  cases news with
  | nil =>
    obtain ⟨hnone, hall⟩ := placedAll_removeOld p olds h shows.map_handle hids
    rw [updateChildren]
    exact ⟨hnone, hall.weaken fun x hx => absurd hx List.not_mem_nil⟩
  | cons new news =>
    cases shows with
    | nil =>
      rw [updateChildren]
      exact ⟨rfl, (builtUnder_appendNew p q (new :: news) h hq).placedAll
        (hids.trans (List.append_nil pre))⟩
    | cons id ids old olds head tail =>
      obtain ⟨hold, holds, hdisj⟩ := List.nodup_append.1 nodup
      have hout := not_or.1 (mt List.mem_append.2 outside)
      obtain ⟨hnone, id', hfirst⟩ := placed_update p old new h head hold
        (by rw [hids]; simp) hout.1
      obtain ⟨hnone', hrest⟩ := placedAll_updateChildren (p.update old new).patch olds news
        (pre ++ [id']) hfirst.linked (hfirst.showsAll tail hdisj hout.2) holds
        (by rw [hfirst.place pre ids hids, List.append_assoc]; rfl)
        (Nat.lt_of_lt_of_le hq hfirst.keeps.grows) hout.2
      rw [updateChildren_cons p hnone]
      exact ⟨hnone', .cons (.cons id ids old olds head tail) nodup outside hids hfirst hrest⟩

end

end Patch

end LiveMarkup
