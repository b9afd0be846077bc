import AssetGroups.Proofs.Job.Persistence
import AssetGroups.Proofs.Session

/-!
# Ids over whole sessions

Whatever jobs are run at however many instances, in whatever order their steps are taken and whichever
accesses are refused: an id is given once, and the contents that follow one another are all sound.
-/

namespace AssetGroups

/-! ## Ids in contents that follow one another -/

namespace Database

variable {db db' : Database} {id : Nat}

theorem Step.countsOn (h : db.Step db') : db.CountsOn db' := by
  rcases h with ⟨-, hsave⟩ | hremove
  · exact saveUnique_countsOn hsave
  · exact remove_countsOn hremove

/-- Only the next id can be new. -/
theorem Step.id_new (h : db.Step db') (hid : id ∈ db'.ids) (hnew : id ∉ db.ids) :
    id = db.lastId + 1 ∧ db'.lastId = id := by
  obtain ⟨g, hg, hgid⟩ := mem_ids.mp hid
  have hold : ∀ h ∈ db.groups, h.id ≠ some id := fun h hh hhid => hnew (mem_ids.mpr ⟨h, hh, hhid⟩)
  rcases h with ⟨-, hsave⟩ | hremove
  · rcases (saveUnique_cases hsave).2 with ⟨-, rfl, rfl⟩ | ⟨_, _, hknown, -, rfl, rfl⟩
    · rcases List.mem_append.mp hg with hg | hg
      · exact absurd hgid (hold g hg)
      · rw [List.mem_singleton.mp hg] at hgid
        exact ⟨(Option.some.inj hgid).symm, Option.some.inj hgid⟩
    · obtain ⟨h, hh, hhid⟩ := mem_replaceFirst hknown hg
      exact absurd (hhid.trans hgid) (hold h hh)
  · rw [remove_ok hremove] at hg
    exact absurd hgid (hold g (List.mem_of_mem_filter hg))

end Database

/-! ## Sessions of a service -/

/-- What comes back for a command. -/
inductive Response where
  | reply (r : Reply)
  | saved (r : Backup.SaveReply)
  | status (r : Backup.StatusReply)

def Command.response (sv : Service) : Command → Script Site Response
  | .request subject payload => .reply <$> sv.respond subject payload
  | .save q => .saved <$> Backup.answerSave sv q
  | .restore q => .status <$> Backup.answerRestore sv q
  | .reset => .status <$> Backup.answerReset sv

theorem Command.response_within (sv : Service) (c : Command) :
    (c.response sv).Within (Site.JobStep sv.storage) := by
  cases c with
  | request subject payload => exact (sv.respond_within subject payload).map _
  | save q => exact (Backup.answerSave_within sv q).map _
  | restore q => exact (Backup.answerRestore_within sv q).map _
  | reset => exact (Backup.answerReset_within sv).map _

namespace Service

/-- A session of so many instances of a service, on the disk as it is at first. -/
def session (sv : Service) (n : Nat) (moves : Nat → Move Command) (first : Disk := {}) :
    Session Command Response :=
  ⟨Command.response sv, n, moves, first⟩

variable {sv : Service} {n : Nat} {moves : Nat → Move Command} {first : Disk}
  {contents : Nat → Database}

/-- Each content of a session is followed by what a job makes of it, so that all are sound if the first
one is. -/
theorem exists_contents {db : Database} (hshared : (sv.session n moves first).Shared sv.storage)
    (hfirst : first.content sv.storage = .ok db) :
    ∃ contents, (sv.session n moves first).Contents sv.storage Database.Step contents ∧
      contents 0 = db ∧ (∀ t, (contents t).CountsOn (contents (t + 1))) ∧
      ∀ t, db.Sound → (contents t).Sound := by
  obtain ⟨contents, hcontents⟩ := Session.exists_contents (x := sv.session n moves first)
    (Command.response_within sv) hshared hfirst fun _ _ => (·.countsOn)
  have hbegins : contents 0 = db := hcontents.eq_first hfirst
  exact ⟨contents, hcontents, hbegins, hcontents.countsOn fun _ _ => (·.countsOn), fun t hsound =>
    hcontents.induction (hbegins ▸ hsound) (fun _ _ hsound hstep => hsound.step hstep) t⟩

theorem respond_create {subject : String} {payload : List UInt8} {steps : List (Site × Site)}
    {reply : Reply} (hsubject : Subject.ofText? subject = some .create)
    (h : (sv.respond subject payload).Answers steps reply) (hok : reply.ok = true) :
    ∃ g stored, g.id = none ∧ reply.out = some (Group.toJson stored) ∧
      Stores sv.storage .created g stored steps := by
  obtain ⟨r, first, rest, rfl, hhandle, hend⟩ := Script.answers_bind.mp h
  obtain ⟨rfl, hreply⟩ := Script.answers_done.mp hend
  rw [List.append_nil]
  cases r with
  | error e =>
      rw [← hreply] at hok
      cases hok
  | ok out =>
      obtain ⟨g, stored, hid, rfl, hstores⟩ := handle_create hsubject hhandle
      exact ⟨g, stored, hid, by rw [← hreply]; rfl, hstores⟩

/-- The step of a request that created a group, in the contents of the session. -/
theorem session_created
    (hcontents : (sv.session n moves first).Contents sv.storage Database.Step contents)
    {b k i t : Nat} {subject : String} {payload : List UInt8} {reply : Reply}
    (hasked : (sv.session n moves first).Asked b k i (.request subject payload))
    (hsubject : Subject.ofText? subject = some .create)
    (hanswer : ((sv.session n moves first).state t).answer? k = some (.reply reply))
    (hok : reply.ok = true) :
    ∃ u stored, b < u ∧ u < t ∧ moves u = .advance k ∧ reply.out = some (Group.toJson stored) ∧
      stored.id = some ((contents u).lastId + 1) ∧
      contents (u + 1) = ⟨(contents u).lastId + 1, (contents u).groups ++ [stored]⟩ := by
  obtain ⟨times, hmoments, hanswers⟩ := hasked.answers hanswer
  obtain ⟨reply', hrespond, hreply⟩ := Script.answers_map.mp hanswers
  cases hreply
  obtain ⟨g, stored, hid, hout, hstores⟩ := respond_create hsubject hrespond hok
  obtain ⟨_, s, s', _, db, db', -, hsave, hchanged, hsteps⟩ := hstores.changed
  obtain ⟨u, later, rfl, hu, -⟩ := List.map_eq_cons_iff.mp hsteps
  obtain ⟨rfl, rfl⟩ := Prod.mk.inj hu
  have hbetween := hmoments.between u List.mem_cons_self
  have hmove := hmoments.own u List.mem_cons_self
  obtain ⟨_, -, hleft, -⟩ := hasked.history hbetween.1
  obtain ⟨rfl, hnext⟩ := hcontents.of_changed hleft hmove hchanged
    (Database.saveUnique_countsOn hsave)
  refine ⟨u, stored, hbetween.1, hbetween.2, hmove, hout, ?_⟩
  rcases (Database.saveUnique_cases hsave).2 with ⟨-, rfl, hdb⟩ | ⟨_, _, hid', -⟩
  · exact ⟨rfl, hnext.trans hdb⟩
  · rw [hid] at hid'
    cases hid'

/-- At every moment the store holds a sound content. Its counter never decreases, a group that is
created gets the next id, and an id that was once given and is not in use any more stays unused. -/
theorem session_ids (hshared : (sv.session n moves).Shared sv.storage) :
    ∃ contents : Nat → Database, contents 0 = {} ∧
      (∀ t, (contents t).Sound ∧
        ((sv.session n moves).state t).cluster.Holds sv.storage (contents t)) ∧
      (∀ t id, id ∈ (contents (t + 1)).ids → id ∉ (contents t).ids →
        id = (contents t).lastId + 1 ∧ (contents (t + 1)).lastId = id) ∧
      (∀ t u, t ≤ u → (contents t).lastId ≤ (contents u).lastId ∧
        ∀ id ≤ (contents t).lastId, id ∉ (contents t).ids → id ∉ (contents u).ids) ∧
      ∀ b k i t subject payload reply,
        (sv.session n moves).Asked b k i (.request subject payload) →
        Subject.ofText? subject = some .create →
        ((sv.session n moves).state t).answer? k = some (.reply reply) → reply.ok = true →
        ∃ u stored, b < u ∧ u < t ∧ moves u = .advance k ∧
          reply.out = some (Group.toJson stored) ∧ stored.id = some ((contents u).lastId + 1) ∧
          contents (u + 1) = ⟨(contents u).lastId + 1, (contents u).groups ++ [stored]⟩ := by
  obtain ⟨contents, hcontents, hbegins, hcounts, hsound⟩ :=
    exists_contents hshared (Disk.content_of_missing rfl)
  have hnext : ∀ t id, id ∈ (contents (t + 1)).ids → id ∉ (contents t).ids →
      id = (contents t).lastId + 1 ∧ (contents (t + 1)).lastId = id := by
    intro t id hid hnew
    rcases hcontents.follows t with ⟨hsame, -⟩ | ⟨_, _, _, -, -, hstep, -⟩
    · exact absurd (hsame ▸ hid) hnew
    · exact hstep.id_new hid hnew
  refine ⟨contents, hbegins, fun t => ⟨hsound t Database.sound_empty, hcontents.holds t⟩, hnext,
    fun t u htu => ?_, fun b k i t subject payload reply => session_created hcontents⟩
  induction u, htu using Nat.le_induction with
  | base => exact ⟨Nat.le_refl _, fun id _ hfree => hfree⟩
  | succ u htu ih =>
      refine ⟨Nat.le_trans ih.1 (hcounts u).lastId_le, fun id hle hfree hid => ?_⟩
      have hgiven := (hnext u id hid (ih.2 id hle hfree)).1
      have := ih.1
      omega

/-! A group is created, removed, and another one is created. -/

/-- A request for a group with one condition, written as the list of its members. -/
def createRequest (name : String) : Command :=
  .request "CREATE" (("[null,\"".toList ++ name.toList ++
    "\",[\"OR\",[\x7b\"field\":\"name\",\"operator\":\"IS\",\"value\":\"x\"\x7d]]]".toList).map
      fun c => UInt8.ofNat c.toNat)

/-- Each request is followed by as many steps as it takes. -/
def sampleMoves : List (Move Command) :=
  .ask 0 (createRequest "a") :: List.replicate 4 (.advance 0) ++
    .ask 0 (.request "DELETE" [49]) :: List.replicate 4 (.advance 1) ++
    .ask 0 (createRequest "b") :: List.replicate 4 (.advance 2)

def sampleSession : Session Command Response :=
  ({} : Service).session 1 fun t => sampleMoves.getD t (.refuse [])

theorem sampleSession_shared : sampleSession.Shared {} :=
  Or.inr ⟨rfl, Move.getD_ne_join (by simp [sampleMoves, createRequest])⟩

/-- Whether a request was answered with success. -/
def Response.isOk : Response → Bool
  | .reply r => r.ok
  | _ => false

theorem session_ids_sample : ∃ (contents : Nat → Database) (reply : Reply) (u : Nat) (stored : Group),
    (sampleSession.state 15).answer? 2 = some (.reply reply) ∧ reply.ok = true ∧
      reply.out = some (Group.toJson stored) ∧ stored.id = some ((contents u).lastId + 1) ∧
      contents (u + 1) = ⟨(contents u).lastId + 1, (contents u).groups ++ [stored]⟩ := by
  have hrun : ((sampleSession.state 15).answer? 2).any Response.isOk = true := by decide +kernel
  obtain ⟨reply | _ | _, hanswer, hok⟩ := (Option.any_eq_true _ _).mp hrun
  · have hasked : sampleSession.Asked 10 2 0 (createRequest "b") :=
      ⟨rfl, by decide +kernel, by decide +kernel⟩
    obtain ⟨contents, -, -, -, -, hcreated⟩ := session_ids sampleSession_shared
    obtain ⟨u, stored, -, -, -, hout, hid, hnext⟩ :=
      hcreated 10 2 0 15 _ _ reply hasked (by decide) hanswer hok
    exact ⟨contents, reply, u, stored, hanswer, hok, hout, hid, hnext⟩
  · cases hok
  · cases hok

end Service

end AssetGroups
