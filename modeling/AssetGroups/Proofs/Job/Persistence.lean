import AssetGroups.Proofs.Schedule

/-!
# What is stored can be found again

A group that a job has stored stands in the file. An instance that is opened on the file afterwards finds
it there, unless some group in the file is nested so deeply that the file cannot be read any more: a
request may hold a group that is nested two levels deeper than the file can hold it.
-/

namespace AssetGroups

variable {cfg : Storage} {s t : Site}

/-- The site of an instance that is opened on the same file, with nothing refused to it. -/
def Site.restarted (s : Site) : Site :=
  ⟨{}, Instance.opened.feed, { s.disk with refusals := [] }⟩

theorem Site.content_restarted {db : Database} (hstore : s.disk.store = .file db.octets)
    (hsound : db.Sound) : s.restarted.content cfg =
      if db.Readable then .ok db else .error (.serialization "not a group database") := by
  rw [content, if_neg (by simp [restarted])]
  exact Disk.content_of_file hstore hsound.fits

namespace Service

variable {sv : Service} {g stored : Group} {steps : List (Site × Site)}

/-! ## Jobs that store a group -/

/-- A group was stored and announced. -/
structure Stored (cfg : Storage) (subject : EventSubject) (g stored : Group) (s t : Site) : Prop where
  checked : g.check = .ok ()
  changed : ∃ id u db db', stored.id = some id ∧ db.saveUnique g = .ok (stored, db') ∧
    s.Changed cfg u db db' ∧ t = { u with feed := u.feed.publish ⟨subject, id⟩ }

/-- The steps in which a group is stored and then announced. Others may act between them. -/
structure Stores (cfg : Storage) (subject : EventSubject) (g stored : Group)
    (steps : List (Site × Site)) : Prop where
  checked : g.check = .ok ()
  changed : ∃ id s t u db db', stored.id = some id ∧ db.saveUnique g = .ok (stored, db') ∧
    s.Changed cfg t db db' ∧
    steps = [(s, t), (u, { u with feed := u.feed.publish ⟨subject, id⟩ })]

theorem Stores.linked {subject : EventSubject} (h : Stores cfg subject g stored steps)
    (hlinked : Script.Linked s steps t) : Stored cfg subject g stored s t := by
  obtain ⟨id, s', u, v, db, db', hid, hsave, hchanged, rfl⟩ := h.changed
  obtain ⟨rfl, rfl, rfl⟩ := hlinked
  exact ⟨h.checked, id, u, db, db', hid, hsave, hchanged, rfl⟩

theorem demandValid_answers (h : g.demandValid.Answers steps (.ok ())) :
    g.check = .ok () ∧ steps = [] := by
  unfold Group.demandValid at h
  cases hcheck : g.check with
  | error v =>
      rw [hcheck] at h
      cases (Work.answers_throw.mp h).2
  | ok =>
      rw [hcheck] at h
      exact ⟨rfl, (Work.answers_pure.mp h).1⟩

theorem demandValid_eq_ok (h : g.check = .ok ()) (s : Site) :
    g.demandValid.outcome s = (.ok (), s) := by
  rw [Group.demandValid, h]
  rfl

theorem publish_answers {subject : EventSubject} {id : Nat}
    (h : (publish subject id).Answers steps (.ok ())) :
    ∃ u : Site, steps = [(u, { u with feed := u.feed.publish ⟨subject, id⟩ })] := by
  obtain ⟨u, rfl, -⟩ := Work.answers_asWork.mp h
  exact ⟨u, rfl⟩

/-- A job that announces a group last succeeds with that group. -/
theorem announce_answers {subject : EventSubject} {id : Nat} {new : Group}
    (h : (do publish subject id; return new : Work Group).Answers steps (.ok stored)) :
    stored = new ∧ ∃ u : Site, steps = [(u, { u with feed := u.feed.publish ⟨subject, id⟩ })] := by
  obtain ⟨_, _, _, rfl, hpublish, hend⟩ := Work.answers_bind_ok.mp h
  obtain ⟨u, rfl⟩ := publish_answers hpublish
  obtain ⟨rfl, hnew⟩ := Work.answers_pure.mp hend
  exact ⟨(Except.ok.inj hnew).symm, u, rfl⟩

theorem createOne_answers (h : (sv.createOne g).Answers steps (.ok stored)) :
    Stores sv.storage .created { g with id := none } stored steps := by
  unfold createOne at h
  obtain ⟨_, _, _, rfl, hvalid, hstore⟩ := Work.answers_bind_ok.mp h
  obtain ⟨hcheck, rfl⟩ := demandValid_answers hvalid
  obtain ⟨new, _, _, rfl, hsave, hannounce⟩ := Work.answers_bind_ok.mp hstore
  obtain ⟨s, t, db, db', rfl, hunique, hchanged⟩ := Store.change_answers hsave
  have hid : new.id = some (db.lastId + 1) := Database.saveUnique_id hunique
  simp only [hid] at hannounce
  obtain ⟨rfl, u, rfl⟩ := announce_answers hannounce
  exact ⟨hcheck, _, s, t, u, db, db', hid, hunique, hchanged, rfl⟩

theorem createOne_ok (hok : (sv.createOne g).outcome s = (.ok stored, t)) :
    Stored sv.storage .created { g with id := none } stored s t := by
  obtain ⟨steps, hanswers, hlinked⟩ := (sv.createOne g).answers_outcome s
  rw [hok] at hanswers hlinked
  exact (createOne_answers hanswers).linked hlinked

/-- A group that passes its check and bears a name of its own is stored unless the disk keeps it from
being written. -/
theorem createOne_eq_ok {db : Database} (hcontent : s.content sv.storage = .ok db)
    (hquiet : s.disk.refusals = []) (hfile : s.disk.store ≠ .folder)
    (hcheck : ({ g with id := none } : Group).check = .ok ())
    (hname : ∀ h ∈ db.groups, h.name ≠ g.name) :
    ∃ stored u, (sv.createOne g).outcome s =
        (.ok stored, { u with feed := u.feed.publish ⟨.created, db.lastId + 1⟩ }) ∧
      s.Changed sv.storage u db
        ⟨db.lastId + 1, db.groups ++ [{ g with id := some (db.lastId + 1) }]⟩ := by
  have hsave := Database.saveUnique_new db (g := { g with id := none }) rfl hname
  obtain ⟨u, hok, hchanged⟩ := Store.change_eq_ok hcontent hsave hquiet hfile
  exact ⟨_, u, Work.outcome_bind_ok.mpr ⟨(), s, demandValid_eq_ok hcheck s,
    Work.outcome_bind_ok.mpr ⟨_, u, hok, rfl⟩⟩, hchanged⟩

theorem update_answers (h : (sv.update g).Answers steps (.ok stored)) :
    Stores sv.storage .updated g stored steps := by
  unfold update at h
  cases hid : g.id with
  | none =>
      rw [hid] at h
      cases (Work.answers_throw.mp h).2
  | some id =>
      simp only [hid] at h
      obtain ⟨_, _, _, rfl, hvalid, hstore⟩ := Work.answers_bind_ok.mp h
      obtain ⟨hcheck, rfl⟩ := demandValid_answers hvalid
      obtain ⟨new, _, _, rfl, hsave, hannounce⟩ :=
        Work.answers_bind_ok.mp (Work.answers_inTurn.mp hstore)
      obtain ⟨s, t, db, db', rfl, hunique, hchanged⟩ := Store.change_answers hsave
      obtain ⟨rfl, u, rfl⟩ := announce_answers hannounce
      have hnew := Database.saveUnique_id hunique
      rw [hid] at hnew
      exact ⟨hcheck, id, s, t, u, db, db', hnew, hunique, hchanged, rfl⟩

/-- A job that succeeds was given what the payload decodes to, which takes no step. -/
theorem decodePayload_bind_answers {α β : Type} {d : Json.Decoder α} {payload : List UInt8}
    {job : α → Work β} {f : β → Json.Value} {out : Json.Value}
    (h : (decodePayload d payload >>= fun a => job a >>= fun b => pure (f b)).Answers
      steps (.ok out)) : ∃ a b, out = f b ∧ (job a).Answers steps (.ok b) := by
  obtain ⟨a, first, rest, rfl, hdecode, hjob⟩ := Work.answers_bind_ok.mp h
  obtain ⟨r, hanswers, hout⟩ := Work.answers_bind_pure.mp hjob
  obtain ⟨b, rfl, rfl⟩ := map_eq_ok.mp hout
  have hfirst : first = [] := by
    unfold decodePayload at hdecode
    split at hdecode
    · cases (Work.answers_throw.mp hdecode).2
    · split at hdecode
      · exact (Work.answers_pure.mp hdecode).1
      · cases (Work.answers_throw.mp hdecode).2
  subst hfirst
  exact ⟨a, b, rfl, hanswers⟩

theorem handle_create {subject : String} {payload : List UInt8} {out : Json.Value}
    (hsubject : Subject.ofText? subject = some .create)
    (h : (sv.handle subject payload).Answers steps (.ok out)) :
    ∃ g stored, g.id = none ∧ out = Group.toJson stored ∧
      Stores sv.storage .created g stored steps := by
  unfold handle at h
  rw [hsubject] at h
  obtain ⟨g, stored, hout, hcreate⟩ := decodePayload_bind_answers h
  exact ⟨_, stored, rfl, hout, createOne_answers (Work.answers_inTurn.mp hcreate)⟩

theorem handle_update {subject : String} {payload : List UInt8} {out : Json.Value}
    (hsubject : Subject.ofText? subject = some .update)
    (h : (sv.handle subject payload).Answers steps (.ok out)) :
    ∃ g stored, out = Group.toJson stored ∧ Stores sv.storage .updated g stored steps := by
  unfold handle at h
  rw [hsubject] at h
  obtain ⟨g, stored, hout, hupdate⟩ := decodePayload_bind_answers h
  exact ⟨g, stored, hout, update_answers hupdate⟩

theorem handle_stored {subject : String} {payload : List UInt8} {out : Json.Value}
    (hsubject : Subject.ofText? subject = some .create ∨ Subject.ofText? subject = some .update)
    (hok : (sv.handle subject payload).outcome s = (.ok out, t)) :
    ∃ event g stored, out = Group.toJson stored ∧ Stored sv.storage event g stored s t := by
  obtain ⟨steps, hanswers, hlinked⟩ := (sv.handle subject payload).answers_outcome s
  rw [hok] at hanswers hlinked
  rcases hsubject with hsubject | hsubject
  · obtain ⟨g, stored, -, rfl, hstores⟩ := handle_create hsubject hanswers
    exact ⟨_, _, stored, rfl, hstores.linked hlinked⟩
  · obtain ⟨g, stored, rfl, hstores⟩ := handle_update hsubject hanswers
    exact ⟨_, _, stored, rfl, hstores.linked hlinked⟩

/-! ## Reading afterwards -/

/-- Storing a group replaces the content that the instance found by one that holds the group. -/
theorem Stored.serves {subject : EventSubject} (h : Stored cfg subject g stored s t)
    (hs : s.Sound cfg) : ∃ db db', s.content cfg = .ok db ∧ db.Sound ∧
      db.saveUnique g = .ok (stored, db') ∧ t.slot = ⟨true, db'⟩ ∧ t.Serves cfg db' := by
  obtain ⟨id, u, db, db', -, hunique, hchanged, rfl⟩ := h.changed
  obtain ⟨db₀, hsound, hholds⟩ := hs
  obtain rfl := hholds.eq_of_content hsound.fits hchanged.content
  have hu : u.Serves cfg db' := .changed hchanged (hsound.saveUnique h.checked hunique).1
  exact ⟨_, db', hchanged.content, hsound, hunique, hchanged.slot, hu.publish _⟩

theorem Stored.read_restarted {subject : EventSubject} (h : Stored sv.storage subject g stored s t)
    (hs : s.Sound sv.storage) : ∃ id, stored.id = some id ∧
      ((sv.read id).outcome t.restarted).1 =
        if t.slot.database.Readable then .ok stored
        else .error (.serialization "not a group database") := by
  obtain ⟨id, u, db, db', hid, hunique, hchanged, rfl⟩ := h.changed
  obtain ⟨db₀, hsound, hholds⟩ := hs
  obtain rfl := hholds.eq_of_content hsound.fits hchanged.content
  obtain ⟨hsound', hmem⟩ := hsound.saveUnique h.checked hunique
  refine ⟨id, hid, ?_⟩
  set t : Site := { u with feed := u.feed.publish ⟨subject, id⟩ }
  have hslot : t.slot.database = db' := by
    show u.slot.database = db'
    rw [hchanged.slot]
  have hcontent : t.restarted.content sv.storage = _ :=
    Site.content_restarted hchanged.store hsound'
  have hread : ((sv.read id).outcome t.restarted).1 = _ :=
    (Store.byId_reads id).fst_eq rfl
  rw [hread, hcontent, hslot]
  by_cases hreadable : db'.Readable
  · rw [if_pos hreadable, if_pos hreadable]
    exact Database.byId_eq_ok.mpr (hsound'.byId?_eq_some.mpr ⟨hmem, hid⟩)
  · rw [if_neg hreadable, if_neg hreadable]
    rfl

/-- After a request that stores a group the file can be read, and the group is found in it as it was
answered, exactly when the counter fits in a word and no group is nested too deeply. -/
theorem handle_survives {n : Nat} (hn : n = 1 ∨ sv.storage.isDurable = true) {sch : Schedule Unit}
    (hreached : Schedule.Reached sv n sch) (i : Nat) {subject : String} {payload : List UInt8}
    (hsubject : Subject.ofText? subject = some .create ∨ Subject.ofText? subject = some .update)
    {out : Json.Value} (hok : (sv.handle subject payload).outcome (sch.cluster.site i) = (.ok out, t)) :
    ∃ stored id, out = Group.toJson stored ∧ stored.id = some id ∧
      ((sv.read id).outcome t.restarted).1 =
        if t.slot.database.Readable then .ok stored
        else .error (.serialization "not a group database") := by
  obtain ⟨event, g, stored, rfl, hstored⟩ := handle_stored hsubject hok
  obtain ⟨id, hid, hread⟩ := hstored.read_restarted ((hreached.sound hn).site i)
  exact ⟨stored, id, rfl, hid, hread⟩

/-- Rule sets inside each other, each written as the list of its members. -/
def nestedText : (levels : Nat) → List Char
  | 0 => "\x7b\"field\":\"name\",\"operator\":\"IS\",\"value\":\"x\"\x7d".toList
  | levels + 1 => "[\"OR\",[".toList ++ nestedText levels ++ "]]".toList

/-- A group that is nested 126 levels deep. -/
def nestedPayload : List UInt8 :=
  ("\x7b\"name\":\"deep\",\"rules\":".toList ++ nestedText 62 ++ "\x7d".toList).map
    fun c => UInt8.ofNat c.toNat

/-- The request is answered with success, and the file cannot be read any more. -/
theorem handle_survives_nested :
    ∃ out t stored id,
      (({} : Service).handle "CREATE" nestedPayload).outcome ((Cluster.opened 1).site 0) =
        (.ok out, t) ∧
      out = Group.toJson stored ∧ stored.id = some id ∧
      ((({} : Service).read id).outcome t.restarted).1 =
        .error (.serialization "not a group database") := by
  have hrun : (match (({} : Service).handle "CREATE" nestedPayload).outcome
      ((Cluster.opened 1).site 0) with
    | (.ok _, t) => decide (¬ t.slot.database.Readable)
    | _ => false) = true := by
    decide +kernel
  rcases hok : (({} : Service).handle "CREATE" nestedPayload).outcome
    ((Cluster.opened 1).site 0) with ⟨e | out, t⟩ <;> rw [hok] at hrun
  · cases hrun
  · obtain ⟨stored, id, hout, hid, hread⟩ :=
      handle_survives (Or.inl rfl) .opened 0 (Or.inl rfl) hok
    rw [if_neg (of_decide_eq_true hrun)] at hread
    exact ⟨out, t, stored, id, rfl, hout, hid, hread⟩

end Service

end AssetGroups
