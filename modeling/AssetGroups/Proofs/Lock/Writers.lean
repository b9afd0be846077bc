import AssetGroups.Lock.Writers
import AssetGroups.Proofs.Members
import AssetGroups.Proofs.Store.Path

/-!
# Writers behind a lock file

Writers exclude each other as long as no file is put in the place of the lock file. By default the lock
file stands beside the store file and is another one, unless the name of the store file ends in the very
extension that lock files have: then every write replaces the file that the writers lock.
-/

namespace AssetGroups

namespace Lock.Writers

variable {cfg : Storage} {s t u : Writers} {move : WriterMove} {moves : List WriterMove}

/-- Nobody has begun, and the files that are there are among those that there were. -/
structure Begins (s : Writers) : Prop where
  away : ∀ w ∈ s.all, w = .away
  numbered : ∀ place file, s.files place = some file → file < s.count

/-- At most one writer is inside. -/
def Exclusive (s : Writers) : Prop :=
  ∀ (j k file file' : Nat), s.all[j]? = some (.inside file) → s.all[k]? = some (.inside file') → j = k

/-- A lock file that was there is there still. -/
def KeepsLock (cfg : Storage) (s t : Writers) : Prop :=
  ∀ place file, Path.place? cfg.lockFile = some place → s.files place = some file →
    t.files place = some file

/-! ## One move -/

/-- A writer comes to wait, goes inside or leaves; the files change when the lock file is created and
when the store file is replaced. -/
theorem next_cases (hnext : s.next? cfg move = some t) :
    (∃ k place file, Path.place? cfg.lockFile = some place ∧ s.files place = some file ∧
        t = s.proceed k (.waiting file)) ∨
      (∃ k place, Path.place? cfg.lockFile = some place ∧ s.files place = none ∧
        t = (s.put place).proceed k (.waiting s.count)) ∨
      (∃ k file, s.all[k]? = some (.waiting file) ∧ .inside file ∉ s.all ∧
        t = s.proceed k (.inside file)) ∨
      (∃ place, Path.place? cfg.path = some place ∧ t = s.put place) ∨
      ∃ k, t = s.proceed k .away := by
  cases move with
  | approach k =>
      obtain ⟨w, -, hnext⟩ := Option.bind_eq_some_iff.mp hnext
      split at hnext
      · obtain ⟨place, hplace, hnext⟩ := Option.bind_eq_some_iff.mp hnext
        split at hnext <;> cases hnext
        · exact Or.inl ⟨k, place, _, hplace, ‹_›, rfl⟩
        · exact Or.inr (Or.inl ⟨k, place, hplace, ‹_›, rfl⟩)
      · cases hnext
  | enter k =>
      obtain ⟨w, hk, hnext⟩ := Option.bind_eq_some_iff.mp hnext
      split at hnext
      · split at hnext <;> cases hnext
        exact Or.inr (Or.inr (Or.inl ⟨k, _, hk, ‹_›, rfl⟩))
      · cases hnext
  | replace k =>
      obtain ⟨w, -, hnext⟩ := Option.bind_eq_some_iff.mp hnext
      split at hnext
      · obtain ⟨place, hplace, hnext⟩ := Option.bind_eq_some_iff.mp hnext
        cases hnext
        exact Or.inr (Or.inr (Or.inr (Or.inl ⟨place, hplace, rfl⟩)))
      · cases hnext
  | leave k =>
      obtain ⟨_, -, hnext⟩ := Option.bind_eq_some_iff.mp hnext
      cases hnext
      exact Or.inr (Or.inr (Or.inr (Or.inr ⟨k, rfl⟩)))

/-! ## A lock file that is left in its place -/

/-- Every writer that has opened a lock file has the one that stands there, and at most one writer is
inside. -/
structure Guarded (cfg : Storage) (s : Writers) : Prop where
  current : ∀ w ∈ s.all, ∀ file, w = .waiting file ∨ w = .inside file →
    ∃ place, Path.place? cfg.lockFile = some place ∧ s.files place = some file
  exclusive : s.Exclusive

theorem Begins.guarded (h : s.Begins) : s.Guarded cfg where
  current w hw file hfile := by
    rcases hfile with rfl | rfl <;> cases h.away _ hw
  exclusive j k file file' hj := by
    cases h.away _ (List.mem_of_getElem? hj)

/-- Who is inside after somebody went on is that one, or was inside before. -/
theorem inside_proceed {j k file : Nat} {w : Writer}
    (h : (s.proceed k w).all[j]? = some (.inside file)) :
    j = k ∧ w = .inside file ∨ s.all[j]? = some (.inside file) :=
  (getElem?_set_cases h).imp (And.imp_right Eq.symm) And.right

theorem Exclusive.proceed (h : s.Exclusive) {k : Nat} {w : Writer} (hw : ∀ file, w ≠ .inside file) :
    (s.proceed k w).Exclusive := by
  intro i j file file' hi hj
  rcases inside_proceed hi with ⟨-, hinside⟩ | hi
  · exact absurd hinside (hw file)
  · rcases inside_proceed hj with ⟨-, hinside⟩ | hj
    · exact absurd hinside (hw file')
    · exact h i j file file' hi hj

namespace Guarded

theorem put {place : List Char × List Char} (h : s.Guarded cfg)
    (hplace : ∀ file, Path.place? cfg.lockFile = some place → s.files place ≠ some file) :
    (s.put place).Guarded cfg where
  current w hw file hfile := by
    obtain ⟨place', hlock, hfound⟩ := h.current w hw file hfile
    refine ⟨place', hlock, ?_⟩
    have hother : place' ≠ place := by
      rintro rfl
      exact hplace file hlock hfound
    exact (if_neg hother).trans hfound
  exclusive := h.exclusive

/-- A writer who goes on with the file that stands there, or with none, leaves it so for all. -/
theorem current_proceed (h : s.Guarded cfg) {k : Nat} {w : Writer}
    (hw : ∀ file, w = .waiting file ∨ w = .inside file →
      ∃ place, Path.place? cfg.lockFile = some place ∧ s.files place = some file) :
    ∀ w' ∈ (s.proceed k w).all, ∀ file, w' = .waiting file ∨ w' = .inside file →
      ∃ place, Path.place? cfg.lockFile = some place ∧ s.files place = some file :=
  forall_mem_set h.current hw

theorem wait (h : s.Guarded cfg) {place : List Char × List Char} {file : Nat} (k : Nat)
    (hplace : Path.place? cfg.lockFile = some place) (hfile : s.files place = some file) :
    (s.proceed k (.waiting file)).Guarded cfg where
  current := h.current_proceed fun file' hfile' => by
    obtain rfl : file = file' := by simpa using hfile'
    exact ⟨place, hplace, hfile⟩
  exclusive := h.exclusive.proceed (by simp)

/-- Whoever is inside has locked the file that stands there, and so would the next one. -/
theorem enter (h : s.Guarded cfg) {k file : Nat} (hk : s.all[k]? = some (.waiting file))
    (hfree : .inside file ∉ s.all) : (s.proceed k (.inside file)).Guarded cfg where
  current := h.current_proceed fun file' hfile' => by
    obtain rfl : file = file' := by simpa using hfile'
    exact h.current _ (List.mem_of_getElem? hk) file (Or.inl rfl)
  exclusive := by
    have hnobody : ∀ (j file' : Nat), s.all[j]? ≠ some (.inside file') := by
      intro j file' hj
      obtain ⟨place, hplace, hfile⟩ := h.current _ (List.mem_of_getElem? hk) file (Or.inl rfl)
      obtain ⟨place', hplace', hfile'⟩ := h.current _ (List.mem_of_getElem? hj) file' (Or.inr rfl)
      obtain rfl := Option.some.inj (hplace.symm.trans hplace')
      obtain rfl := Option.some.inj (hfile.symm.trans hfile')
      exact hfree (List.mem_of_getElem? hj)
    intro i j file₁ file₂ hi hj
    rcases inside_proceed hi with ⟨hik, -⟩ | hi
    · rcases inside_proceed hj with ⟨hjk, -⟩ | hj
      · rw [hik, hjk]
      · exact absurd hj (hnobody j file₂)
    · exact absurd hi (hnobody i file₁)

theorem leave (h : s.Guarded cfg) (k : Nat) : (s.proceed k .away).Guarded cfg where
  current := h.current_proceed fun file hfile => by
    rcases hfile with hfile | hfile <;> cases hfile
  exclusive := h.exclusive.proceed (by simp)

theorem next (h : s.Guarded cfg) (hapart : Path.place? cfg.lockFile ≠ Path.place? cfg.path)
    (hnext : s.next? cfg move = some t) : t.Guarded cfg ∧ s.KeepsLock cfg t := by
  rcases next_cases hnext with ⟨k, place, file, hplace, hfile, rfl⟩ | ⟨k, place, hplace, hnone, rfl⟩ |
    ⟨k, file, hk, hfree, rfl⟩ | ⟨place, hplace, rfl⟩ | ⟨k, rfl⟩
  · exact ⟨h.wait k hplace hfile, fun _ _ _ => id⟩
  · refine ⟨(h.put fun file _ => by simp [hnone]).wait k hplace (if_pos rfl), ?_⟩
    intro place' file hplace' hfile
    have hother : place' ≠ place := by
      rintro rfl
      rw [hnone] at hfile
      cases hfile
    exact (if_neg hother).trans hfile
  · exact ⟨h.enter hk hfree, fun _ _ _ => id⟩
  · have hother : Path.place? cfg.lockFile ≠ some place := hplace ▸ hapart
    refine ⟨h.put fun file hlock => absurd hlock hother, fun place' file hplace' hfile => ?_⟩
    have hne : place' ≠ place := by
      rintro rfl
      exact hother hplace'
    exact (if_neg hne).trans hfile
  · exact ⟨h.leave k, fun _ _ _ => id⟩

theorem run (h : s.Guarded cfg) (hapart : Path.place? cfg.lockFile ≠ Path.place? cfg.path)
    (hrun : s.run? cfg moves = some t) : t.Guarded cfg ∧ s.KeepsLock cfg t := by
  induction moves generalizing s with
  | nil =>
      cases hrun
      exact ⟨h, fun _ _ _ => id⟩
  | cons move moves ih =>
      obtain ⟨u, hmove, hrest⟩ := Option.bind_eq_some_iff.mp hrun
      obtain ⟨hu, hkeeps⟩ := h.next hapart hmove
      obtain ⟨ht, hkeeps'⟩ := ih hu hrest
      exact ⟨ht, fun place file hplace hfile =>
        hkeeps' place file hplace (hkeeps place file hplace hfile)⟩

end Guarded

/-! ## A lock file that is replaced -/

def pair : Writers := { all := [.away, .away] }

theorem pair_begins : pair.Begins := ⟨by simp [pair], by simp [pair]⟩

/-- The second writer comes while the first one is inside and has written. -/
def overtaking : List WriterMove :=
  [.approach 0, .enter 0, .replace 0, .approach 1, .enter 1]

theorem overtaking_enters (hsame : Path.place? cfg.lockFile = Path.place? cfg.path)
    (hplace : (Path.place? cfg.path).isSome = true) :
    ∃ t, pair.run? cfg overtaking = some t ∧ t.all = [.inside 0, .inside 1] := by
  obtain ⟨place, hpath⟩ := Option.isSome_iff_exists.mp hplace
  rw [hpath] at hsame
  simp [overtaking, pair, run?, next?, proceed, Writers.put, hsame, hpath]

end Lock.Writers

/-! ## The lock file by default -/

/-- The last component of a path. -/
def Path.fileName? (path : String) : Option String :=
  (place? path).map fun (name, _) => String.ofList name.reverse

namespace Storage

variable {cfg : Storage} {name : String}

theorem lockFile_place (hdefault : cfg.lockPath = none) {name folder : List Char}
    (hplace : Path.place? cfg.path = some (name, folder)) : Path.place? cfg.lockFile =
      if Path.stem name = ['.'] ∧ cfg.path.toList = (name ++ folder).reverse then none
      else some ("lock".toList.reverse ++ '.' :: Path.stem name, folder) := by
  rw [lockFile, hdefault, Option.getD_none]
  exact Path.splitName_withExtension hplace (by decide) (by decide)

/-- The lock file is the store file when that one has the extension of lock files. Of the name `..lock`
only what stands after a slash at the end of the path is left as it is. -/
theorem lockFile_place_eq (hdefault : cfg.lockPath = none)
    (hname : Path.fileName? cfg.path = some name) :
    Path.place? cfg.lockFile = Path.place? cfg.path ↔
      ∃ stem, stem ≠ "" ∧ name = stem ++ ".lock" ∧
        (stem = "." → ¬ "..lock".toList <:+ cfg.path.toList) := by
  obtain ⟨⟨last, folder⟩, hplace, rfl⟩ := Option.map_eq_some_iff.mp hname
  obtain ⟨hnames, hsignificant⟩ := Path.splitName_eq_some hplace
  rw [lockFile_place hdefault hplace, hplace]
  constructor
  · intro heq
    split at heq
    · cases heq
    · rename_i hkeeps
      have hlast : last = "lock".toList.reverse ++ '.' :: Path.stem last :=
        (Prod.mk.inj (Option.some.inj heq)).1.symm
      refine ⟨String.ofList (Path.stem last).reverse, ?_, ?_, fun hdot hsuffix => hkeeps ?_⟩
      · simpa [String.ext_iff] using Path.stem_ne_nil hnames.ne_nil
      · refine String.ext ?_
        show (String.ofList last.reverse).toList = _
        rw [String.toList_ofList, String.toList_append, String.toList_ofList]
        nth_rewrite 1 [hlast]
        rw [List.reverse_append, List.reverse_cons, List.reverse_reverse, List.append_assoc]
        rfl
      · have hstem : Path.stem last = ['.'] := by
          simpa [String.ext_iff] using hdot
        refine ⟨hstem, ?_⟩
        obtain ⟨front, hfront⟩ := hsuffix
        have hpath : cfg.path.toList.reverse = "..lock".toList.reverse ++ front.reverse := by
          rw [← hfront, List.reverse_append]
        rw [← hsignificant, hpath, Path.significant_eq_self (by simp) (by simp), ← hpath,
          List.reverse_reverse]
  · rintro ⟨stem, hne, hjoined, hdot⟩
    have hlast : last = "lock".toList.reverse ++ '.' :: stem.toList.reverse := by
      have := congrArg (List.reverse ∘ String.toList) hjoined
      simpa using this
    have hstem : Path.stem last = stem.toList.reverse := by
      rw [hlast]
      exact Path.stem_append (by decide) fun hnil => hne (String.ext (List.reverse_eq_nil_iff.mp hnil))
    rw [if_neg, hstem, ← hlast]
    rintro ⟨hsingle, hpath⟩
    refine hdot ?_ ⟨folder.reverse, ?_⟩
    · rw [hstem] at hsingle
      simpa [String.ext_iff] using hsingle
    · rw [hpath, hlast, ← hstem, hsingle]
      simp

/-- With the default lock file the writers exclude each other, and the file that they lock is never
replaced, unless it is the store file itself, which it is for a store file with the extension of lock
files. -/
theorem lockFile_excludes (hdefault : cfg.lockPath = none)
    (hname : Path.fileName? cfg.path = some name) :
    (Path.place? cfg.lockFile = Path.place? cfg.path ↔
      ∃ stem, stem ≠ "" ∧ name = stem ++ ".lock" ∧
        (stem = "." → ¬ "..lock".toList <:+ cfg.path.toList)) ∧
    (Path.place? cfg.lockFile ≠ Path.place? cfg.path ↔
      ∀ (s t u : Lock.Writers) (moves more : List Lock.WriterMove), s.Begins →
        s.run? cfg moves = some t → t.run? cfg more = some u → u.Exclusive ∧ t.KeepsLock cfg u) := by
  refine ⟨lockFile_place_eq hdefault hname, fun hapart s t u moves more hbegins hrun hmore => ?_,
    fun hsafe hsame => ?_⟩
  · obtain ⟨hguarded, -⟩ := hbegins.guarded.run hapart hrun
    obtain ⟨hguarded', hkeeps⟩ := hguarded.run hapart hmore
    exact ⟨hguarded'.exclusive, hkeeps⟩
  · obtain ⟨place, hplace, -⟩ := Option.map_eq_some_iff.mp hname
    obtain ⟨t, hrun, hall⟩ := Lock.Writers.overtaking_enters hsame (by rw [hplace]; rfl)
    have hexclusive := (hsafe _ t t _ [] Lock.Writers.pair_begins hrun rfl).1
    have := hexclusive 0 1 0 1 (by rw [hall]; rfl) (by rw [hall]; rfl)
    omega

def besideLock : Storage := { path := "data/groups.lock", lock := .file }

/-- A store file named like a lock file is locked itself. The default name is safe. -/
theorem lockFile_excludes_extension :
    besideLock.lockFile = besideLock.path ∧
      (¬ ∀ (s t u : Lock.Writers) (moves more : List Lock.WriterMove), s.Begins →
        s.run? besideLock moves = some t → t.run? besideLock more = some u →
          u.Exclusive ∧ t.KeepsLock besideLock u) ∧
      Path.place? ({} : Storage).lockFile ≠ Path.place? ({} : Storage).path := by
  have hlockName : Path.fileName? besideLock.path = some "groups.lock" := by decide
  have hjsonName : Path.fileName? ({} : Storage).path = some "groups.json" := by decide
  have hlock := lockFile_excludes rfl hlockName
  have hjson := lockFile_excludes rfl hjsonName
  refine ⟨by decide, fun hsafe => ?_, fun hsame => ?_⟩
  · exact hlock.2.mpr hsafe (hlock.1.mpr ⟨"groups", by decide⟩)
  · obtain ⟨stem, -, hname, -⟩ := hjson.1.mp hsame
    have := congrArg (List.getLast? ∘ String.toList) hname
    simp at this

end Storage

end AssetGroups
