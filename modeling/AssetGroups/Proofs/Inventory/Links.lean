import AssetGroups.Proofs.Inventory.Numbering
import AssetGroups.Proofs.Outcome
import Mathlib.Data.List.Induction

/-!
# Names and links of a document

Which documents are accepted, and what the links make of the assets: they change nothing but the
hosts, and of the links that host an asset the last one counts.
-/

namespace AssetGroups

/-! ## Names -/

def Document.everyItem (d : Document) : List Item := Item.allPreorder d.items

def Document.names (d : Document) : List String := d.everyItem.map (·.parts.name)

def Link.Joins (names : List String) (l : Link) : Prop := l.source ∈ names ∧ l.destination ∈ names

/-- `name` is the first end of the link that is none of the names. -/
def Link.Strays (names : List String) (l : Link) (name : String) : Prop :=
  name ∉ names ∧ (name = l.source ∨ l.source ∈ names ∧ name = l.destination)

/-- What a document is refused for: the first name that an earlier item bears, and if there is none,
the first end of a link that no item bears. -/
inductive Document.Fault (d : Document) : GroupError → Prop where
  | repeated {before after : List String} {name : String} : d.names = before ++ name :: after →
      before.Nodup → name ∈ before → d.Fault (.duplicateAsset name)
  | astray {before after : List Link} {l : Link} {name : String} : d.names.Nodup →
      d.links = before ++ l :: after → (∀ l' ∈ before, l'.Joins d.names) → l.Strays d.names name →
      d.Fault (.unknownLinkEnd name)

theorem names_of_show {assets : List Asset} {items : List Item}
    (h : List.Forall₂ Asset.Shows assets items) :
    assets.map (·.name) = items.map (·.parts.name) := by
  induction h with
  | nil => rfl
  | cons hshows _ ih => rw [List.map_cons, List.map_cons, hshows.name, ih]

theorem lookup_eq_some_iff_mem {ids : List (String × Nat)} (h : (ids.map (·.1)).Nodup)
    {name : String} {id : Nat} : ids.lookup name = some id ↔ (name, id) ∈ ids := by
  rw [List.lookup_eq_some_iff]
  constructor
  · rintro ⟨before, after, rfl, -⟩
    simp
  · intro hmem
    obtain ⟨before, after, rfl⟩ := List.append_of_mem hmem
    refine ⟨before, after, rfl, fun p hp => ?_⟩
    rw [List.map_append, List.nodup_append] at h
    rw [bne_iff_ne]
    exact (h.2.2 p.1 (List.mem_map_of_mem hp) name (by simp)).symm

namespace Inventory

/-- Every name is taken up with its id, or the first name that was given before is reported. -/
theorem nameIds_cases (assets : List Asset) (given : List (String × Nat))
    (hgiven : (given.map (·.1)).Nodup) :
    (nameIds given assets = .ok ((assets.map fun a => (a.name, a.id)).reverse ++ given) ∧
      ((given.map (·.1)).reverse ++ assets.map (·.name)).Nodup) ∨
    ∃ before name after, (given.map (·.1)).reverse ++ assets.map (·.name) = before ++ name :: after ∧
      before.Nodup ∧ name ∈ before ∧ nameIds given assets = .error (.duplicateAsset name) := by
  induction assets generalizing given with
  | nil => simpa [nameIds] using hgiven
  | cons a assets ih =>
      rw [nameIds]
      split
      · next hseen =>
        obtain ⟨p, hp, hname⟩ := List.lookup_isSome_iff.mp hseen
        rw [beq_iff_eq] at hname
        refine .inr ⟨(given.map (·.1)).reverse, a.name, assets.map (·.name), by simp,
          List.nodup_reverse.mpr hgiven, ?_, rfl⟩
        rw [List.mem_reverse, hname]
        exact List.mem_map_of_mem hp
      · next hnew =>
        have hnew' : a.name ∉ given.map (·.1) := by
          intro hmem
          obtain ⟨p, hp, hname⟩ := List.mem_map.mp hmem
          exact hnew (List.lookup_isSome_iff.mpr ⟨p, hp, by simp [hname]⟩)
        simpa using ih ((a.name, a.id) :: given) (List.nodup_cons.mpr ⟨hnew', hgiven⟩)

end Inventory

/-! ## Nothing but the hosts -/

/-- An asset without its host. -/
def Asset.unhosted (a : Asset) : Asset := { a with host := none }

theorem Asset.unhosted_shows {a : Asset} {item : Item} : a.unhosted.Shows item ↔ a.Shows item :=
  ⟨fun h => ⟨h.name, h.displayName, h.type, h.subtype, h.attributes⟩,
    fun h => ⟨h.name, h.displayName, h.type, h.subtype, h.attributes⟩⟩

namespace Inventory

structure SameButHosts (inv inv' : Inventory) : Prop where
  assets : inv'.assets.map (·.unhosted) = inv.assets.map (·.unhosted)
  children : inv'.children = inv.children

variable {inv inv' : Inventory} {ids : List (String × Nat)}

theorem SameButHosts.refl (inv : Inventory) : inv.SameButHosts inv := ⟨rfl, rfl⟩

theorem SameButHosts.trans {inv'' : Inventory} (h : inv.SameButHosts inv')
    (h' : inv'.SameButHosts inv'') : inv.SameButHosts inv'' :=
  ⟨h'.assets.trans h.assets, h'.children.trans h.children⟩

theorem SameButHosts.map_eq {α : Type} (h : inv.SameButHosts inv') (f : Asset → α)
    (hf : ∀ a : Asset, f a.unhosted = f a) : inv'.assets.map f = inv.assets.map f := by
  have hmap := congrArg (List.map f) h.assets
  simpa only [List.map_map, Function.comp_def, hf] using hmap

theorem SameButHosts.numbered (h : inv.SameButHosts inv') (hnum : inv.Numbered) : inv'.Numbered where
  ids := by
    have hlen := congrArg List.length (h.map_eq (·.id) fun _ => rfl)
    simp only [List.length_map] at hlen
    rw [h.map_eq (·.id) fun _ => rfl, hnum.ids, hlen]
  parents := by
    intro a ha
    have hmem : (a.id, a.parent) ∈ inv.assets.map fun a => (a.id, a.parent) := by
      rw [← h.map_eq (fun a => (a.id, a.parent)) fun _ => rfl]
      exact List.mem_map_of_mem ha
    obtain ⟨b, hb, heq⟩ := List.mem_map.mp hmem
    rw [Prod.mk.injEq] at heq
    rw [← heq.1, ← heq.2]
    exact hnum.parents b hb
  children p := by
    have hunhosted (assets : List Asset) : (assets.filter (·.parent == some p)).map (·.id) =
        ((assets.map (·.unhosted)).filter (·.parent == some p)).map (·.id) := by
      rw [List.filter_map, List.map_map]
      rfl
    rw [h.children, hnum.children, hunhosted, hunhosted inv'.assets, h.assets]

theorem Numbered.assets_setHost (h : inv.Numbered) (host id : Nat) :
    (inv.setHost host id).assets =
      inv.assets.map fun a => if a.id = id then { a with host := some host } else a := by
  refine List.ext_getElem? fun j => ?_
  rw [List.getElem?_map]
  cases hj : inv.assets[j]? with
  | none => cases id <;> simp [setHost, List.getElem?_modify, hj]
  | some a =>
      have hid := h.id_of_getElem? hj
      cases id with
      | zero => simp [setHost, hj, hid]
      | succ i => simp [setHost, List.getElem?_modify, hj, hid, eq_comm (a := i)]

theorem Numbered.setHost_sameButHosts (h : inv.Numbered) (host id : Nat) :
    inv.SameButHosts (inv.setHost host id) where
  assets := by
    rw [h.assets_setHost, List.map_map]
    refine List.map_congr_left fun a _ => ?_
    rw [Function.comp_apply]
    split <;> rfl
  children := by cases id <;> rfl

/-! ## Following the links -/

/-- The last of the links that host the asset with the name comes from `source`. -/
def LastHosting (links : List Link) (name source : String) : Prop :=
  ∃ before l after, links = before ++ l :: after ∧ l.isHosting = true ∧ l.destination = name ∧
    l.source = source ∧ ∀ l' ∈ after, l'.isHosting = true → l'.destination ≠ name

theorem not_lastHosting_nil {name source : String} : ¬ LastHosting [] name source := by
  rintro ⟨before, l, after, hlinks, -⟩
  simp at hlinks

theorem lastHosting_concat {links : List Link} {l : Link} {name source : String} :
    LastHosting (links ++ [l]) name source ↔
      if l.isHosting = true ∧ l.destination = name then l.source = source
      else LastHosting links name source := by
  constructor
  · rintro ⟨before, l', after, hlinks, hhosting, hdest, hsource, hlast⟩
    rcases List.eq_nil_or_concat after with rfl | ⟨after, l'', rfl⟩
    · obtain ⟨-, hl⟩ := List.append_inj' hlinks rfl
      obtain rfl : l = l' := by simpa using hl
      rwa [if_pos ⟨hhosting, hdest⟩]
    · rw [List.concat_eq_append, ← List.cons_append, ← List.append_assoc] at hlinks
      obtain ⟨hbefore, hl⟩ := List.append_inj' hlinks rfl
      obtain rfl : l = l'' := by simpa using hl
      simp only [List.concat_eq_append, List.forall_mem_append, List.forall_mem_singleton] at hlast
      rw [if_neg fun hl => hlast.2 hl.1 hl.2]
      exact ⟨before, l', after, hbefore, hhosting, hdest, hsource, hlast.1⟩
  · split
    · next hl =>
      intro hsource
      exact ⟨links, l, [], rfl, hl.1, hl.2, hsource, by simp⟩
    · next hl =>
      rintro ⟨before, l', after, rfl, hhosting, hdest, hsource, hlast⟩
      refine ⟨before, l', after ++ [l], by simp, hhosting, hdest, hsource, ?_⟩
      simp only [List.forall_mem_append, List.forall_mem_singleton]
      exact ⟨hlast, fun hhost hname => hl ⟨hhost, hname⟩⟩

theorem exists_lastHosting {links : List Link} {l : Link} (hl : l ∈ links)
    (hhosting : l.isHosting = true) : ∃ l' ∈ links, LastHosting links l.destination l'.source := by
  induction links using List.reverseRecOn with
  | nil => simp at hl
  | append_singleton links last ih =>
      simp only [lastHosting_concat, List.mem_append, List.mem_singleton] at hl ⊢
      by_cases hlast : last.isHosting = true ∧ last.destination = l.destination
      · exact ⟨last, .inr rfl, by rw [if_pos hlast]⟩
      · rcases hl with hl | rfl
        · obtain ⟨l', hl', hsource⟩ := ih hl
          exact ⟨l', .inl hl', by rwa [if_neg hlast]⟩
        · exact absurd ⟨hhosting, rfl⟩ hlast

/-- The ids that the names of an inventory are looked up by. -/
def Named (ids : List (String × Nat)) (inv : Inventory) : Prop :=
  ∀ name id, ids.lookup name = some id ↔ (name, id) ∈ inv.assets.map fun a => (a.name, a.id)

theorem SameButHosts.named (h : inv.SameButHosts inv') (hnamed : inv.Named ids) : inv'.Named ids := by
  intro name id
  rw [hnamed, h.map_eq (fun a => (a.name, a.id)) fun _ => rfl]

/-- What an inventory `inv` becomes by following links one after the other. -/
structure Follows (ids : List (String × Nat)) (inv : Inventory) (links : List Link)
    (inv' : Inventory) : Prop where
  same : inv.SameButHosts inv'
  hosts : ∀ a ∈ inv'.assets, ∀ host, a.host = some host ↔
    ∃ source, LastHosting links a.name source ∧ ids.lookup source = some host

/-- One link: its source hosts its destination from now on, if it is a hosting one. -/
theorem Follows.link {links : List Link} {l : Link} {source destination : Nat}
    (hnum : inv.Numbered) (hnamed : inv.Named ids) (h : Follows ids inv links inv')
    (hs : ids.lookup l.source = some source) (hd : ids.lookup l.destination = some destination) :
    Follows ids inv (links ++ [l]) (if l.isHosting then inv'.setHost source destination else inv') := by
  have hnum' := h.same.numbered hnum
  have hnamed' := h.same.named hnamed
  split
  · next hhosting =>
    refine ⟨h.same.trans (hnum'.setHost_sameButHosts source destination), fun a ha host => ?_⟩
    rw [hnum'.assets_setHost, List.mem_map] at ha
    obtain ⟨b, hb, rfl⟩ := ha
    have hdest : b.id = destination ↔ l.destination = b.name := by
      have hlookup := (hnamed' b.name b.id).mpr (List.mem_map_of_mem hb)
      constructor
      · rintro rfl
        obtain ⟨c, hc, heq⟩ := List.mem_map.mp ((hnamed' _ _).mp hd)
        rw [Prod.mk.injEq] at heq
        rw [← heq.1, hnum'.eq_of_id hc hb heq.2]
      · intro hname
        rw [hname, hlookup, Option.some.injEq] at hd
        exact hd
    split
    · next hid =>
      simp only [lastHosting_concat, hhosting, hdest.mp hid, and_self, ↓reduceIte, Option.some.injEq,
        exists_eq_left', hs]
    · next hid =>
      simp only [lastHosting_concat, mt hdest.mpr hid, and_false, ↓reduceIte]
      exact h.hosts b hb host
  · next hhosting =>
    refine ⟨h.same, fun a ha host => ?_⟩
    simp only [lastHosting_concat, hhosting, false_and, ↓reduceIte, Bool.false_eq_true]
    exact h.hosts a ha host

theorem Named.mem_names (h : inv.Named ids) {name : String} :
    name ∈ inv.assets.map (·.name) ↔ ∃ id, ids.lookup name = some id := by
  simp only [h name, List.mem_map, Prod.mk.injEq]
  constructor
  · rintro ⟨a, ha, hname⟩
    exact ⟨a.id, a, ha, hname, rfl⟩
  · rintro ⟨id, a, ha, hname, -⟩
    exact ⟨a, ha, hname⟩

theorem Named.addLink_cases (h : inv.Named ids) (inv' : Inventory) (l : Link) :
    (∃ source destination, ids.lookup l.source = some source ∧
      ids.lookup l.destination = some destination ∧ l.Joins (inv.assets.map (·.name)) ∧
      addLink ids inv' l = .ok (if l.isHosting then inv'.setHost source destination else inv')) ∨
    ∃ name, l.Strays (inv.assets.map (·.name)) name ∧
      addLink ids inv' l = .error (.unknownLinkEnd name) := by
  unfold addLink Link.Joins Link.Strays
  simp only [h.mem_names]
  cases hs : ids.lookup l.source with
  | none => exact .inr ⟨l.source, by simp [hs], rfl⟩
  | some source =>
      cases hd : ids.lookup l.destination with
      | none => exact .inr ⟨l.destination, by simp [hd], rfl⟩
      | some destination =>
          refine .inl ⟨source, destination, rfl, rfl, ⟨⟨source, rfl⟩, destination, rfl⟩, ?_⟩
          cases l.isHosting <;> rfl

/-- All links are followed, or the first stray end is reported. -/
theorem Named.addLinks_cases (h : inv.Named ids) (hnum : inv.Numbered)
    (hhosts : ∀ a ∈ inv.assets, a.host = none) (links : List Link) :
    (∃ inv', links.foldlM (addLink ids) inv = .ok inv' ∧
      (∀ l ∈ links, l.Joins (inv.assets.map (·.name))) ∧ Follows ids inv links inv') ∨
    ∃ before l after name, links = before ++ l :: after ∧
      (∀ l' ∈ before, l'.Joins (inv.assets.map (·.name))) ∧
      l.Strays (inv.assets.map (·.name)) name ∧
      links.foldlM (addLink ids) inv = .error (.unknownLinkEnd name) := by
  induction links using List.reverseRecOn with
  | nil =>
      refine .inl ⟨inv, rfl, by simp, .refl inv, fun a ha host => ?_⟩
      simp [hhosts a ha, not_lastHosting_nil]
  | append_singleton links l ih =>
      have hstep : (links ++ [l]).foldlM (addLink ids) inv =
          links.foldlM (addLink ids) inv >>= fun inv' => addLink ids inv' l := by
        simp [List.foldlM_append]
      rcases ih with ⟨inv', hok, hjoins, hfollows⟩ | ⟨before, l', after, name, rfl, hbefore, hstrays, herr⟩
      · rw [hok] at hstep
        rcases h.addLink_cases inv' l with
          ⟨source, destination, hs, hd, hl, hadd⟩ | ⟨name, hstrays, hadd⟩
        · refine .inl ⟨_, hstep.trans hadd, ?_, hfollows.link hnum h hs hd⟩
          exact List.forall_mem_append.mpr ⟨hjoins, List.forall_mem_singleton.mpr hl⟩
        · exact .inr ⟨links, l, [], name, rfl, hjoins, hstrays, hstep.trans hadd⟩
      · rw [herr] at hstep
        exact .inr ⟨before, l', after ++ [l], name, by simp, hbefore, hstrays, hstep⟩

/-! ## Whole documents -/

theorem insertAll_shows (d : Document) :
    (∀ a ∈ (insertAll {} none d.items).assets, a.host = none) ∧
      List.Forall₂ Asset.Shows (insertAll {} none d.items).assets d.everyItem := by
  rw [assets_insertAll]
  exact (List.forall₂_and_left _ _).mp (Item.allAssets_show none 1 d.items)

theorem ofDocument_cases (d : Document) :
    (∃ inv ids, ofDocument d = .ok inv ∧ d.names.Nodup ∧ (∀ l ∈ d.links, l.Joins d.names) ∧
      (insertAll {} none d.items).Named ids ∧
      Follows ids (insertAll {} none d.items) d.links inv) ∨
    ∃ e, ofDocument d = .error e ∧ d.Fault e := by
  obtain ⟨hhosts, hshows⟩ := insertAll_shows d
  have hnum := numbered_insertAll d.items
  have hnames : (insertAll {} none d.items).assets.map (·.name) = d.names := names_of_show hshows
  unfold ofDocument
  generalize insertAll {} none d.items = inv at *
  rcases nameIds_cases inv.assets [] (by simp) with
    ⟨hids, hnodup⟩ | ⟨before, name, after, hsplit, hbefore, hseen, herr⟩
  · simp only [List.map_nil, List.reverse_nil, List.nil_append, List.append_nil, hnames] at hids hnodup
    have hnamed : inv.Named (inv.assets.map fun a => (a.name, a.id)).reverse := by
      intro name id
      rw [lookup_eq_some_iff_mem, List.mem_reverse]
      rw [List.map_reverse, List.nodup_reverse, List.map_map]
      exact hnames ▸ hnodup
    have hrun := hnamed.addLinks_cases hnum hhosts d.links
    rw [hnames] at hrun
    simp only [hids]
    rcases hrun with ⟨inv', hok, hjoins, hfollows⟩ |
      ⟨before, l, after, name, hlinks, hbefore, hstrays, herr⟩
    · exact .inl ⟨inv', _, hok, hnodup, hjoins, hnamed, hfollows⟩
    · exact .inr ⟨_, herr, .astray hnodup hlinks hbefore hstrays⟩
  · simp only [List.map_nil, List.reverse_nil, List.nil_append, hnames] at hsplit
    simp only [herr]
    exact .inr ⟨_, rfl, .repeated hsplit hbefore hseen⟩

theorem accepted_of_ofDocument {d : Document} {inv : Inventory} (h : ofDocument d = .ok inv) :
    d.names.Nodup ∧ ∀ l ∈ d.links, l.Joins d.names := by
  rcases ofDocument_cases d with ⟨_, _, _, hnames, hjoins, -⟩ | ⟨e, herr, -⟩
  · exact ⟨hnames, hjoins⟩
  · cases h.symm.trans herr

/-- The inventory of every document that is accepted is numbered. -/
theorem numbered_of_ofDocument {d : Document} {inv : Inventory} (h : ofDocument d = .ok inv) :
    inv.Numbered := by
  rcases ofDocument_cases d with ⟨inv', ids, hok, -, -, -, hfollows⟩ | ⟨e, herr, -⟩
  · cases h.symm.trans hok
    exact hfollows.same.numbered (numbered_insertAll d.items)
  · cases h.symm.trans herr

end Inventory

end AssetGroups
