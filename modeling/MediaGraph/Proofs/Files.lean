/-
What was written to a file is read from it, whatever the path looks like.

Places carry the entries that they were found among, and these are out of date once the
tree has changed. The names of a place are not, so both trees are compared by names.

* `FileEntry.follow`: the entry that names lead to;
* `FileTree.Coherent`: a place whose entries are those of the tree;
* `FileTree.follow_put`: what was put at a place is there;
* `FileTree.Keeps`: no directory is lost, as when a file is put where no directory is
  (`FileTree.keeps_put`);
* `FileTree.exists_walk`: a path still leads where it led;
* `FileTree.read_write`: a file holds what was written to it.
-/
import MediaGraph.Storage.Tree
import Mathlib.Data.Option.Basic
import Mathlib.Tactic.SplitIfs

namespace MediaGraph

/-! ### Names -/

/-- The entry that names lead to, the outermost one first. -/
def FileEntry.follow : FileEntry → List String → Option FileEntry
  | e, [] => some e
  | .file _, _ :: _ => none
  | .directory entries, name :: names =>
    (entries.lookup name).bind fun e => e.follow names
termination_by structural _ names => names

namespace FileTree

variable {t t' : FileTree} {e old : FileEntry} {place q : Place} {name : String}
  {entries : List (String × FileEntry)}

/-- The root as a directory. -/
def root (t : FileTree) : FileEntry := .directory t.entries

/-- The names that lead to a place, the outermost one first. -/
def Place.names (place : Place) : List String := (place.map Prod.fst).reverse

lemma Place.names_cons (name : String) (entries : List (String × FileEntry)) (place : Place) :
    Place.names ((name, entries) :: place) = place.names ++ [name] := by
  simp [names]

lemma Place.names_tail {p p' : Place} (h : p'.names = p.names) :
    Place.names p'.tail = Place.names p.tail := by
  rw [names, names, List.map_tail, List.map_tail, List.reverse_inj.mp h]

lemma follow_append (e : FileEntry) (names names' : List String) :
    e.follow (names ++ names') = (e.follow names).bind fun e => e.follow names' := by
  induction names generalizing e with
  | nil => simp [FileEntry.follow]
  | cons name names ih =>
      cases e with
      | file bytes => simp [FileEntry.follow]
      | directory entries =>
          simp only [List.cons_append, FileEntry.follow, Option.bind_assoc]
          exact congrArg _ (funext fun e => ih e)

/-- The entries that a place carries are those of the tree. -/
inductive Coherent (t : FileTree) : Place → Prop
  | root : Coherent t []
  | child {place : Place} {entries : List (String × FileEntry)} (name : String) :
      Coherent t place → t.entry? place = some (.directory entries) →
      Coherent t ((name, entries) :: place)

/-- The entry at a place is found by its names. -/
lemma Coherent.eq_follow (h : t.Coherent place) : t.entry? place = t.root.follow place.names := by
  induction h with
  | root => rfl
  | @child place entries name _ hdir ih =>
      rw [Place.names_cons, follow_append, ← ih, hdir]
      simp [FileEntry.follow, entry?]

lemma Coherent.tail (h : t.Coherent place) : t.Coherent place.tail := by
  cases h with
  | root => exact .root
  | child _ h _ => exact h

/-! ### Changes -/

/-- What was put at a place is found there by the names. The root takes directories
only. -/
lemma follow_put (t : FileTree) (place : Place) (e : FileEntry)
    (he : place = [] → ∃ entries, e = .directory entries) :
    (t.put place e).root.follow place.names = some e := by
  induction place generalizing e with
  | nil =>
      obtain ⟨entries, rfl⟩ := he rfl
      simp [put, root, FileEntry.follow, Place.names]
  | cons x place ih =>
      obtain ⟨name, entries⟩ := x
      rw [put, Place.names_cons, follow_append, ih _ fun _ => ⟨_, rfl⟩]
      simp [FileEntry.follow, lookup_putAmong]

/-- Names that lead to a directory below the first entry, if there is one, lead to a
directory below the other. -/
def Keeps (old : Option FileEntry) (e : FileEntry) : Prop :=
  ∀ names entries, (old.bind fun e => e.follow names) = some (.directory entries) →
    ∃ entries', e.follow names = some (.directory entries')

/-- Nothing is lost where no directory was. -/
lemma keeps_of_not_directory (h : ∀ entries, old ≠ .directory entries) (e : FileEntry) :
    Keeps (some old) e := by
  rintro (_ | ⟨name, names⟩) entries hold
  · simp [FileEntry.follow] at hold
    exact absurd hold (h _)
  · cases old with
    | file bytes => simp [FileEntry.follow] at hold
    | directory entries => exact absurd rfl (h _)

lemma keeps_none (e : FileEntry) : Keeps none e := fun _ _ h => nomatch h

/-- A change of an entry that keeps its directories keeps those of the directory that it
is in. -/
lemma Keeps.putAmong (h : Keeps (entries.lookup name) e) :
    Keeps (some (.directory entries)) (.directory (putAmong name e entries)) := by
  rintro (_ | ⟨other, names⟩) entries' hold
  · exact ⟨_, by rw [FileEntry.follow]⟩
  · rw [Option.bind_some, FileEntry.follow] at hold
    rw [FileEntry.follow, lookup_putAmong]
    split
    · rename_i hname
      subst hname
      exact h names entries' hold
    · exact ⟨entries', hold⟩

/-- A change at a place that keeps the directories there keeps those of the tree. -/
lemma keeps_put {old : Option FileEntry} (h : t.Coherent place) (hold : t.entry? place = old)
    (hkeeps : Keeps old e) : Keeps (some t.root) (t.put place e).root := by
  subst hold
  induction h generalizing e with
  | root =>
      cases e with
      | file bytes => exact fun _ entries h => ⟨entries, h⟩
      | directory entries => exact hkeeps
  | @child place entries name _ hdir ih =>
      exact ih (hdir ▸ hkeeps.putAmong)

/-! ### Walks -/

/-- A path that led somewhere leads to the same names if no directory was lost. -/
lemma exists_walk (hkeeps : Keeps (some t.root) t'.root) {segments : List String}
    {p p' : Place} (hp : t.Coherent p) (hp' : t'.Coherent p') (hnames : p'.names = p.names)
    (hwalk : t.walk p segments = .ok q) :
    t.Coherent q ∧ ∃ q', t'.walk p' segments = .ok q' ∧ t'.Coherent q' ∧ q'.names = q.names := by
  induction segments generalizing p p' with
  | nil =>
      obtain rfl := Except.ok.inj hwalk
      exact ⟨hp, p', rfl, hp', hnames⟩
  | cons s segments ih =>
      rw [walk] at hwalk
      rcases hdir : t.entry? p with _ | ⟨bytes⟩ | ⟨entries⟩
      all_goals rw [hdir] at hwalk
      · cases hwalk
      · cases hwalk
      have hfollow := hp.eq_follow.symm.trans hdir
      obtain ⟨entries', hfollow'⟩ := hkeeps _ _ hfollow
      have hdir' := hp'.eq_follow.trans (hnames ▸ hfollow')
      rw [walk, hdir']
      simp only at hwalk ⊢
      split_ifs at hwalk ⊢
      · exact ih hp hp' hnames hwalk
      · exact ih hp.tail hp'.tail (Place.names_tail hnames) hwalk
      · exact ih (hp.child s hdir) (hp'.child s hdir')
          (by rw [Place.names_cons, Place.names_cons, hnames]) hwalk

/-! ### Writing and reading -/

/-- After a change that loses no directory, a path to the place of the change leads to
what was put there. -/
lemma find_put {segments : List String} (hwalk : t.walk [] segments = .ok place)
    (hold : ∀ entries, t.entry? place ≠ some (.directory entries)) (bytes : ByteArray) :
    ∃ q, (t.put place (.file bytes)).walk [] segments = .ok q ∧
      entry? (t.put place (.file bytes)) q = some (.file bytes) := by
  have hcoherent : t.Coherent place :=
    (exists_walk (fun _ entries h => ⟨entries, h⟩) .root .root rfl hwalk).1
  have hkeeps : Keeps (some t.root) (t.put place (.file bytes)).root := by
    rcases hentry : t.entry? place with _ | old
    · exact keeps_put hcoherent hentry (keeps_none _)
    · refine keeps_put hcoherent hentry (keeps_of_not_directory (fun entries heq => ?_) _)
      exact hold entries (heq ▸ hentry)
  obtain ⟨-, q, hq, hqc, hnames⟩ := exists_walk hkeeps .root .root rfl hwalk
  refine ⟨q, hq, ?_⟩
  rw [hqc.eq_follow, hnames]
  refine follow_put t place _ ?_
  rintro rfl
  exact absurd rfl (hold t.entries)

lemma walk_append (t : FileTree) (p : Place) (segments segments' : List String) :
    t.walk p (segments ++ segments') = (t.walk p segments).bind fun q => t.walk q segments' := by
  induction segments generalizing p with
  | nil => rfl
  | cons s segments ih =>
      rw [List.cons_append, walk, walk]
      split
      · rfl
      · rfl
      · split_ifs
        · exact ih p
        · exact ih p.tail
        · rfl
        · exact ih _

lemma exists_of_bind {ε α β : Type} {x : Except ε α} {f : α → Except ε β} {b : β}
    (h : (x >>= f) = .ok b) : ∃ a, x = .ok a ∧ f a = .ok b := by
  cases x with
  | error e => cases h
  | ok a => exact ⟨a, rfl, h⟩

/-- A place for a new entry is the directory before the last part of the path that is not
empty. -/
lemma exists_of_newPlace {path name : String} {directory : Place} {slashes : Bool}
    (h : t.newPlace path = .ok (some (directory, name, slashes))) :
    ∃ segments outer, parts path = .ok segments ∧
      segments.reverse.dropWhile (· = "") = name :: outer ∧
      t.walk [] (outer.reverse ++ [""]) = .ok directory ∧
      slashes = decide (segments.getLast? = some "") := by
  obtain ⟨segments, hparts, h⟩ := exists_of_bind h
  refine ⟨segments, ?_⟩
  rcases hdrop : segments.reverse.dropWhile (· = "") with _ | ⟨last, outer⟩
  · rw [hdrop] at h
    cases h
  · rw [hdrop] at h
    obtain ⟨place, hwalk, h⟩ := exists_of_bind h
    split_ifs at h
    · cases h
    · obtain ⟨rfl, rfl, rfl⟩ : place = directory ∧ last = name ∧
          decide (segments.getLast? = some "") = slashes := by
        simpa [pure, Except.pure] using h
      exact ⟨outer, hparts, rfl, hwalk, rfl⟩

/-- An empty part leads nowhere else. -/
lemma eq_of_walk_empty {p : Place} (h : t.walk p [""] = .ok q) : p = q := by
  rw [walk] at h
  split at h
  · cases h
  · cases h
  · rw [if_pos (Or.inl rfl)] at h
    exact Except.ok.inj h

/-- Writing succeeds where the path leads to no directory, and puts the file there. -/
lemma exists_of_write {path : String} {bytes : ByteArray} (h : t.write path bytes = .ok t') :
    ∃ segments place, parts path = .ok segments ∧ t.walk [] segments = .ok place ∧
      (∀ entries, t.entry? place ≠ some (.directory entries)) ∧
      t' = t.put place (.file bytes) := by
  obtain ⟨_ | ⟨directory, name, slashes⟩, hnew, h⟩ := exists_of_bind h
  · cases h
  obtain ⟨segments, outer, hparts, hdrop, hdirectory, rfl⟩ := exists_of_newPlace hnew
  simp only [decide_eq_true_eq] at h
  split_ifs at h with hlast
  obtain ⟨place, hwalk, h⟩ := exists_of_bind h
  -- the path does not end in a slash, so its last part is the name of the file
  have hsegments : segments = outer.reverse ++ [name] := by
    rw [List.getLast?_eq_head?_reverse] at hlast
    rw [← List.reverse_inj]
    rcases hreverse : segments.reverse with _ | ⟨s, r⟩
    · rw [hreverse] at hdrop
      cases hdrop
    · rw [hreverse] at hdrop hlast
      have hs : s ≠ "" := fun hs => hlast (by rw [hs]; rfl)
      rw [List.dropWhile_cons_of_neg (by simpa using hs)] at hdrop
      simp [hdrop]
  refine ⟨segments, place, hparts, ?_, ?_⟩
  · rw [walk_append] at hdirectory
    obtain ⟨p, hp, hempty⟩ := exists_of_bind hdirectory
    obtain rfl := eq_of_walk_empty hempty
    rw [hsegments, walk_append, hp]
    exact hwalk
  · rcases hentry : t.entry? place with _ | ⟨_⟩ | ⟨_⟩
    all_goals rw [hentry] at h
    · exact ⟨fun _ => nofun, (Except.ok.inj h).symm⟩
    · exact ⟨fun _ => nofun, (Except.ok.inj h).symm⟩
    · cases h

/-- A file holds what was written to it. -/
theorem read_write {path : String} {bytes : ByteArray} (h : t.write path bytes = .ok t') :
    t'.read path = .ok bytes := by
  obtain ⟨segments, place, hparts, hwalk, hold, rfl⟩ := exists_of_write h
  obtain ⟨q, hq, hentry⟩ := find_put hwalk hold bytes
  have hfind : (t.put place (.file bytes)).find path = .ok (.file bytes) := by
    simp [find, hparts, hq, hentry, bind, Except.bind, pure, Except.pure]
  simp [read, hfind, bind, Except.bind, pure, Except.pure]

end FileTree

end MediaGraph
