import Dossier.Files.Tree
import Dossier.Proofs.Files.Names
import Mathlib.Data.List.DropRight

/-!
# Where paths lead

A path that is put behind another one is followed from where that one leads
(`Dossier.Place.resolve_join`). As long as no link is met, the names of the place that is reached
can be told from the components alone (`Dossier.Place.names_of_advance`): a dot stays, two dots drop
the last name, everything else is one name more. Whatever the components are, in the end they go so
many directories up and then down by some names, which is the `Dossier.Course` that they take
(`Dossier.Place.walk_eq`).
-/

namespace Dossier

namespace Place

variable {p q above : Place} {xs ys : List String} {root path : String} {links : ℕ}

/-! ### Following one path after another -/

/-- What comes of further components after a stop. -/
def Stop.andThen : Stop → List String → Stop
  | .arrived place, more => place.advance more
  | .link place target rest, more => .link place target (rest ++ more)
  | .failed e, _ => .failed e

theorem advance_append (p : Place) (xs ys : List String) :
    p.advance (xs ++ ys) = (p.advance xs).andThen ys := by
  induction xs generalizing p with
  | nil => rfl
  | cons name rest ih =>
    simp only [List.cons_append, advance]
    split
    · split
      · exact ih p
      split
      · exact ih p.parent
      split
      · rfl
      · rfl
      · exact ih _
    · rfl

/-- **Components after others are followed from where those lead**, with the links that are left;
what fails already fails whatever comes after it. -/
theorem follow_append (links : ℕ) (p : Place) (xs : List String) :
    (∃ e, ∀ ys, follow links p (xs ++ ys) = .error e) ∨
      ∃ left q, follow links p xs = .ok q ∧ ∀ ys, follow links p (xs ++ ys) = follow left q ys := by
  induction links generalizing p xs with
  | zero =>
    rcases hstop : p.advance xs with q | ⟨q, target, rest⟩ | e
    · refine .inr ⟨0, q, by rw [follow, hstop], fun ys => ?_⟩
      rw [follow, advance_append, hstop, Stop.andThen, follow]
    · exact .inl ⟨.tooManyLinks, fun ys => by rw [follow, advance_append, hstop, Stop.andThen]⟩
    · exact .inl ⟨e, fun ys => by rw [follow, advance_append, hstop, Stop.andThen]⟩
  | succ links ih =>
    rcases hstop : p.advance xs with q | ⟨q, target, rest⟩ | e
    · refine .inr ⟨links + 1, q, by rw [follow, hstop], fun ys => ?_⟩
      rw [follow, advance_append, hstop, Stop.andThen, follow]
    · -- A link is followed with one less left, and what comes behind stays behind its target.
      have hmore : ∀ ys, follow (links + 1) p (xs ++ ys) =
          if target.isEmpty then .error .notFound
          else follow links (if startsAtRoot target then q.top else q)
            ((components target ++ rest) ++ ys) := fun ys => by
        rw [follow, advance_append, hstop, Stop.andThen, List.append_assoc]
      have honly := hmore []
      rw [List.append_nil, List.append_nil] at honly
      simp only [hmore, honly]
      split
      · exact .inl ⟨.notFound, fun _ => rfl⟩
      · exact ih _ _
    · exact .inl ⟨e, fun ys => by rw [follow, advance_append, hstop, Stop.andThen]⟩

/-- Where no link is met, it does not matter how many may be followed. -/
theorem follow_of_advance (h : p.advance xs = .arrived q) (links : ℕ) :
    follow links p xs = .ok q := by
  cases links <;> rw [follow, h]

/-! ### One path put behind another -/

/-- The components of a path, without the dot for a slash at the end. -/
def pieces (path : List Char) : List String :=
  ((Text.splitAt (· == '/') path).map String.ofList).filter (· ≠ "")

theorem components_slash (as bs : List Char) :
    components (String.ofList (as ++ '/' :: bs)) = pieces as ++ components (String.ofList bs) := by
  have hne : (Text.splitAt (· == '/') bs).map String.ofList ≠ [] := by
    simpa using Text.splitAt_ne_nil _ bs
  simp only [components, String.toList_ofList, Text.splitAt_append (p := (· == '/')) (c := '/') rfl,
    List.map_append, List.filter_append, List.getLast?_append_of_ne_nil _ hne, pieces,
    List.append_assoc]

theorem components_concat {c : Char} (hc : c ≠ '/') (cs : List Char) :
    components (String.ofList (cs ++ [c])) = pieces (cs ++ [c]) := by
  obtain ⟨before, piece, hsplit⟩ :=
    Text.splitAt_concat (p := (· == '/')) (beq_false_of_ne hc) cs
  have hlast : String.ofList (piece ++ [c]) ≠ "" := by
    intro heq
    simpa using congrArg String.toList heq
  simp only [components, pieces, String.toList_ofList, hsplit, List.map_append, List.map_singleton,
    List.getLast?_concat, Option.some.injEq, if_neg hlast, List.append_nil]

theorem components_empty : components "" = ["."] :=
  rfl

/-- A path put behind another one is that one with a slash at its end, and then the path. -/
theorem exists_join (hroot : root ≠ "") :
    ∃ as, (∀ path, Path.isAbsolute path = false →
        Path.join root path = String.ofList (as ++ '/' :: path.toList)) ∧
      root.toList <+: as ++ ['/'] ∧ as ++ ['/'] <+: root.toList ++ ['/'] ∧
      (components root = pieces as ∨ components root = pieces as ++ ["."]) := by
  have hempty : root.isEmpty = false := by simpa using hroot
  obtain ⟨cs, c, hcs⟩ := (List.eq_nil_or_concat' root.toList).resolve_left (by simpa using hroot)
  obtain rfl : root = String.ofList (cs ++ [c]) := by rw [← hcs, String.ofList_toList]
  by_cases hc : c = '/'
  · subst hc
    refine ⟨cs, fun path hpath => ?_, ⟨[], by rw [hcs, List.append_nil]⟩,
      by rw [hcs]; exact List.prefix_append _ _, .inr ?_⟩
    · rw [Path.join, hpath, hempty, Bool.or_self, if_neg Bool.false_ne_true, hcs,
        List.getLast?_concat, if_pos (beq_self_eq_true _), ← String.toList_inj]
      simp
    · rw [components_slash, String.ofList_nil, components_empty]
  · refine ⟨cs ++ [c], fun path hpath => ?_, by rw [hcs]; exact List.prefix_append _ _,
      ⟨[], by rw [hcs, List.append_nil]⟩, .inl (components_concat hc cs)⟩
    rw [Path.join, hpath, hempty, Bool.or_self, if_neg Bool.false_ne_true, hcs,
      List.getLast?_concat, if_neg (by simpa using hc), ← String.toList_inj]
    simp

theorem eq_of_follow_dot (h : follow links p ["."] = .ok q) : p = q := by
  have hstop : p.advance ["."] = .arrived p ∨ p.advance ["."] = .failed .notADirectory := by
    rcases p with ⟨node, trail⟩
    cases node with
    | directory entries => exact .inl rfl
    | file text => exact .inr rfl
    | link target => exact .inr rfl
  rcases hstop with hstop | hstop
  · rw [follow_of_advance hstop] at h
    exact Except.ok.inj h
  · cases links <;> rw [follow, hstop] at h <;> cases h

/-- **A path behind the path of a place is followed from there.** -/
theorem resolve_join {files : Place} (hroot : files.resolve root = .ok above) :
    ∃ left, ∀ path : String, Path.isAbsolute path = false → '\x00' ∉ path.toList →
      files.resolve (Path.join root path) = follow left above (components path) := by
  have hne : root ≠ "" := by
    rintro rfl
    cases hroot
  obtain ⟨as, hjoin, hfront, hback, hcomponents⟩ := exists_join hne
  rw [resolve, if_neg (by simpa using hne)] at hroot
  split at hroot
  · cases hroot
  next hnull =>
  set start := if startsAtRoot root then files.top else files with hstart
  -- The joined path starts where the root does, and has no null if neither part has one.
  have hsame : ∀ path, startsAtRoot (String.ofList (as ++ '/' :: path)) = startsAtRoot root := by
    intro path
    obtain ⟨c, cs, hcs⟩ := List.exists_cons_of_ne_nil (l := root.toList) (by simpa using hne)
    obtain ⟨rest, hrest⟩ := hfront
    have hall : as ++ '/' :: path = root.toList ++ (rest ++ path) := by
      rw [← List.append_assoc, hrest, List.append_assoc]
      rfl
    rw [startsAtRoot, startsAtRoot, String.toList_ofList, hall, hcs]
    rfl
  have hfree : ∀ path : String, '\x00' ∉ path.toList → '\x00' ∉ as ++ '/' :: path.toList := by
    intro path hpath hmem
    rw [List.mem_append, List.mem_cons] at hmem
    rcases hmem with hmem | heq | hmem
    · rcases List.mem_append.mp (hback.subset (List.mem_append_left _ hmem)) with hmem | hmem
      · exact hnull (List.elem_eq_true_of_mem hmem)
      · cases List.mem_singleton.mp hmem
    · cases heq
    · exact hpath hmem
  have hresolve : ∀ path, Path.isAbsolute path = false → '\x00' ∉ path.toList →
      files.resolve (Path.join root path) =
        follow maxLinks start (pieces as ++ components path) := by
    intro path hrelative hpath
    rw [hjoin path hrelative, resolve, if_neg (by simp), hsame, components_slash,
      String.ofList_toList, String.toList_ofList, if_neg (by simpa using hfree path hpath)]
  -- The root has been reached before a dot for a slash at its end.
  obtain ⟨e, hfails⟩ | ⟨left, q, hreached, hmore⟩ := follow_append maxLinks start (pieces as)
  · rcases hcomponents with hpieces | hpieces
    · rw [hpieces, ← List.append_nil (pieces as), hfails] at hroot
      cases hroot
    · rw [hpieces, hfails] at hroot
      cases hroot
  · obtain rfl : q = above := by
      rcases hcomponents with hpieces | hpieces
      · rw [hpieces, hreached] at hroot
        exact Except.ok.inj hroot
      · rw [hpieces, hmore] at hroot
        exact eq_of_follow_dot hroot
    exact ⟨left, fun path hrelative hpath => (hresolve path hrelative hpath).trans (hmore _)⟩

/-! ### The names of a place -/

/-- Where a component leads by its name alone, from the place of some names. -/
def enter (above : List String) (name : String) : List String :=
  if name = "." then above else if name = ".." then above.dropLast else above ++ [name]

/-- **Where components lead** by their names alone. -/
def walk (above components : List String) : List String :=
  components.foldl enter above

theorem names_parent (p : Place) : p.parent.names = p.names.dropLast := by
  rcases p with ⟨node, _ | ⟨⟨name, above⟩, trail⟩⟩
  · rfl
  · simp [parent, names]

theorem names_below (p : Place) (name : String) (node : FileNode) :
    names ⟨node, (name, p.node) :: p.trail⟩ = p.names ++ [name] := by
  simp [names]

/-- **Components that meet no link lead where their names say.** -/
theorem names_of_advance (h : p.advance xs = .arrived q) : q.names = walk p.names xs := by
  induction xs generalizing p with
  | nil =>
    obtain rfl := Stop.arrived.inj h
    rfl
  | cons name rest ih =>
    rw [walk, List.foldl_cons, enter]
    rw [advance] at h
    -- A dot stays, two dots go up, and a name goes down.
    split at h
    · split at h
      · next hdot =>
        rw [if_pos hdot]
        exact ih h
      next hdot =>
      rw [if_neg hdot]
      split at h
      · next hup =>
        rw [if_pos hup, ← names_parent]
        exact ih h
      next hup =>
      rw [if_neg hup]
      split at h
      · cases h
      · cases h
      · next node _ _ =>
        rw [← names_below p name node]
        exact ih h
    · cases h

/-- Whether a text can be a component of a path: there is something in it, and no slash. -/
def IsComponent (component : String) : Prop :=
  component ≠ "" ∧ '/' ∉ component.toList

theorem isComponent_of_mem {component : String} (h : component ∈ components path) :
    IsComponent component := by
  rcases List.mem_append.mp h with hmem | hmem
  · obtain ⟨hmem, hne⟩ := List.mem_filter.mp hmem
    obtain ⟨piece, hpiece, rfl⟩ := List.mem_map.mp hmem
    refine ⟨by simpa using hne, fun hslash => ?_⟩
    rw [String.toList_ofList] at hslash
    simpa using Text.forall_mem_splitAt (· == '/') path.toList piece hpiece '/' hslash
  · split at hmem
    · obtain rfl := List.mem_singleton.mp hmem
      exact ⟨by decide, by decide⟩
    · cases hmem

/-- Whether the names of a place are names of entries. -/
def IsProper (p : Place) : Prop :=
  ∀ name ∈ p.names, FileNode.IsEntryName name

/-- Whether a stop is at a proper place, with components left to follow. -/
def Stop.IsProper : Stop → Prop
  | .arrived place => place.IsProper
  | .link place _ rest => place.IsProper ∧ ∀ c ∈ rest, IsComponent c
  | .failed _ => True

theorem IsProper.parent (h : p.IsProper) : p.parent.IsProper := by
  intro name hname
  rw [names_parent] at hname
  exact h name (List.dropLast_subset _ hname)

theorem names_top (p : Place) : p.top.names = [] := by
  rw [top]
  split
  · rfl
  · next htrail =>
    rw [List.getLast?_eq_none_iff] at htrail
    rw [names, htrail]
    rfl

theorem isProper_top (p : Place) : p.top.IsProper := by
  intro name hname
  rw [names_top] at hname
  cases hname

theorem IsProper.advance (h : p.IsProper) (hxs : ∀ c ∈ xs, IsComponent c) :
    (p.advance xs).IsProper := by
  induction xs generalizing p with
  | nil => exact h
  | cons name rest ih =>
    obtain ⟨⟨hne, hslash⟩, hrest⟩ := List.forall_mem_cons.mp hxs
    rw [Place.advance]
    split
    · split
      · exact ih h hrest
      next hdot =>
      split
      · exact ih h.parent hrest
      next hup =>
      split
      · trivial
      · -- A link stops at a place that is proper, with components left that are.
        exact ⟨h, hrest⟩
      · refine ih ?_ hrest
        intro name' hname'
        rw [names_below, List.mem_append, List.mem_singleton] at hname'
        rcases hname' with hname' | rfl
        · exact h name' hname'
        · exact ⟨hne, hdot, hup, hslash⟩
    · trivial

theorem IsProper.follow (hp : p.IsProper) (hxs : ∀ c ∈ xs, IsComponent c)
    (h : p.follow links xs = .ok q) : q.IsProper := by
  induction links generalizing p xs with
  | zero =>
    have hstop := hp.advance hxs
    rw [Place.follow] at h
    split at h
    · next heq =>
      obtain rfl := Except.ok.inj h
      rwa [heq] at hstop
    · cases h
    · cases h
  | succ links ih =>
    have hstop := hp.advance hxs
    rw [Place.follow] at h
    split at h
    · next heq =>
      obtain rfl := Except.ok.inj h
      rwa [heq] at hstop
    · cases h
    · next place target rest heq =>
      rw [heq] at hstop
      obtain ⟨hplace, hrest⟩ := hstop
      dsimp only at h
      split at h
      · cases h
      · refine ih ?_ (fun c hc => (List.mem_append.mp hc).elim isComponent_of_mem (hrest c)) h
        split
        · exact isProper_top place
        · exact hplace

/-- **Where a path from the root of all files leads**, the names are those of entries. -/
theorem isProper_of_resolve {files : Place} (hpath : Path.isAbsolute path = true)
    (h : files.resolve path = .ok q) : q.IsProper := by
  have hstart : startsAtRoot path = true := hpath
  rw [resolve, if_pos hstart] at h
  split at h
  · cases h
  split at h
  · cases h
  exact (isProper_top files).follow (fun _ => isComponent_of_mem) h

end Place

/-! ### Courses -/

/-- **Where components lead from anywhere**: so many directories up, and then down by some names. -/
structure Course where
  up : ℕ
  down : List String
deriving DecidableEq, Repr

namespace Course

/-- The course with one more component: two dots take back the last name down, if there is one. -/
def step (c : Course) (name : String) : Course :=
  if name = "." then c
  else if name = ".." then
    if c.down = [] then ⟨c.up + 1, []⟩ else ⟨c.up, c.down.dropLast⟩
  else ⟨c.up, c.down ++ [name]⟩

/-- The course of some components. -/
def ofComponents (components : List String) : Course :=
  components.foldl step ⟨0, []⟩

/-- Where a course leads from the place of some names. -/
def leadsTo (c : Course) (above : List String) : List String :=
  above.rdrop c.up ++ c.down

variable {c : Course} {above names : List String}

theorem leadsTo_step (c : Course) (above : List String) (name : String) :
    (c.step name).leadsTo above = Place.enter (c.leadsTo above) name := by
  rw [step, Place.enter]
  split
  · rfl
  split
  · split
    · next hdown =>
      rw [leadsTo, leadsTo, hdown, List.append_nil, List.append_nil, ← List.rdrop_add,
        List.dropLast_eq_take, List.rdrop]
    · next hdown => rw [leadsTo, leadsTo, List.dropLast_append_of_ne_nil hdown]
  · rw [leadsTo, leadsTo, List.append_assoc]

/-- **Components lead where their course does.** -/
theorem walk_eq (above components : List String) :
    Place.walk above components = (ofComponents components).leadsTo above := by
  have hstart : above = leadsTo ⟨0, []⟩ above := by
    rw [leadsTo, List.rdrop_zero, List.append_nil]
  conv_lhs => rw [Place.walk, hstart]
  exact List.foldl_hom (fun c => leadsTo c above) (fun c name => (leadsTo_step c above name).symm)

/-- Whether a course from the place of some names comes back to it: what it goes up, it goes down
again first. -/
def ComesBack (c : Course) (above : List String) : Prop :=
  above.drop (above.length - c.up) <+: c.down

/-- **A course leads below its beginning exactly if it comes back to it.** -/
theorem prefix_leadsTo_iff : above <+: c.leadsTo above ↔ c.ComesBack above := by
  rw [leadsTo, List.rdrop, ComesBack]
  conv_lhs => lhs; rw [← List.take_append_drop (above.length - c.up) above]
  exact List.prefix_append_right_inj _

end Course

namespace Place

variable {files above q : Place} {root path : String} {names : List String}

/-! ### Staying below a directory -/

/-- **Where a path leads** from the place of some names, by the names in it alone. -/
def reached (above : List String) (path : String) : List String :=
  walk (if Path.isAbsolute path then [] else above) (components path)

/-- **Whether a path leads to a directory of some names or below it** when it is taken from there.
-/
def LiesWithin (above : List String) (path : String) : Prop :=
  above <+: reached above path

/-- **A path that meets no link** leads from the root where its names say. -/
theorem resolve_join_of_advance (hroot : files.resolve root = .ok above)
    (hnull : '\x00' ∉ path.toList)
    (h : (if Path.isAbsolute path then files.top else above).advance (components path) =
      .arrived q) :
    files.resolve (Path.join root path) = .ok q ∧ q.names = reached above.names path := by
  rw [reached]
  rcases hpath : Path.isAbsolute path
  · rw [hpath, if_neg Bool.false_ne_true] at h
    obtain ⟨left, hjoin⟩ := resolve_join hroot
    exact ⟨(hjoin path hpath hnull).trans (follow_of_advance h left), names_of_advance h⟩
  · rw [hpath, if_pos rfl] at h
    have hne : path.isEmpty = false := by
      rw [← Bool.not_eq_true, String.isEmpty_iff]
      rintro rfl
      cases hpath
    have hstart : startsAtRoot path = true := hpath
    refine ⟨?_, by rw [names_of_advance h, names_top, if_pos rfl]⟩
    rw [Path.join, hpath, Bool.true_or, if_pos rfl, resolve, hne, if_neg Bool.false_ne_true,
      if_neg (by simpa using hnull), if_pos hstart]
    exact follow_of_advance h maxLinks

/-- Whether a path comes back to the place of some names: one from the root of all files has to go
down by all of them. -/
def ComesBack (above : List String) (path : String) : Prop :=
  if Path.isAbsolute path then above <+: (Course.ofComponents (components path)).down
  else (Course.ofComponents (components path)).ComesBack above

instance (above : List String) (path : String) : Decidable (ComesBack above path) := by
  unfold ComesBack Course.ComesBack
  infer_instance

/-- **A path leads below a directory exactly if it comes back to it.** -/
theorem liesWithin_iff {above : List String} : LiesWithin above path ↔ ComesBack above path := by
  rw [LiesWithin, reached, Course.walk_eq, ComesBack]
  split
  · rw [Course.leadsTo, List.rdrop_nil, List.nil_append]
  · exact Course.prefix_leadsTo_iff

/-! ### The paths of entries -/

theorem isAbsolute_joinNames (h : ∀ name ∈ names, FileNode.IsEntryName name) :
    Path.isAbsolute (Listing.joinNames names) = false := by
  rcases names with _ | ⟨name, names⟩
  · rfl
  have hname := h name List.mem_cons_self
  obtain ⟨c, cs, hcs⟩ := List.exists_cons_of_ne_nil (l := name.toList)
    (by simpa using hname.nonempty)
  have hc : c ≠ '/' := ne_of_mem_of_not_mem (hcs ▸ List.mem_cons_self) hname.noSlash
  have hhead : (Listing.joinNames (name :: names)).toList.head? = some c := by
    rcases names with _ | ⟨second, rest⟩
    · rw [Listing.joinNames_singleton, hcs]
      rfl
    · rw [Listing.joinNames_cons name (List.cons_ne_nil _ _), hcs]
      rfl
  rw [Path.isAbsolute, hhead]
  simpa using hc

/-- The components of the path of an entry are its names. -/
theorem components_joinNames (hne : names ≠ []) (h : ∀ name ∈ names, FileNode.IsEntryName name) :
    components (Listing.joinNames names) = names := by
  have hsplit := Listing.map_splitAt_joinNames hne fun name hname => (h name hname).noSlash
  have hkept : names.filter (· ≠ "") = names :=
    List.filter_eq_self.mpr fun name hname => by simpa using (h name hname).nonempty
  have hlast : names.getLast? ≠ some "" := fun heq =>
    (h _ (List.mem_of_getLast? heq)).nonempty rfl
  rw [components, hsplit, hkept, if_neg hlast, List.append_nil]

/-- Names of entries lead down. -/
theorem walk_of_isEntryName (h : ∀ name ∈ names, FileNode.IsEntryName name) (above : List String) :
    walk above names = above ++ names := by
  induction names generalizing above with
  | nil => exact (List.append_nil above).symm
  | cons name names ih =>
    obtain ⟨hname, hnames⟩ := List.forall_mem_cons.mp h
    have hstep : enter above name = above ++ [name] := by
      rw [enter, if_neg hname.notDot, if_neg hname.notUp]
    rw [walk, List.foldl_cons, hstep]
    exact (ih hnames _).trans (List.append_assoc above [name] names)

/-- **The path of an entry leads below the directory** that it is taken from. -/
theorem liesWithin_joinNames (h : ∀ name ∈ names, FileNode.IsEntryName name)
    (above : List String) : LiesWithin above (Listing.joinNames names) := by
  rw [LiesWithin, reached, isAbsolute_joinNames h, if_neg Bool.false_ne_true]
  by_cases hne : names = []
  · subst hne
    exact List.prefix_rfl
  · rw [components_joinNames hne h, walk_of_isEntryName h]
    exact List.prefix_append _ _

end Place

end Dossier
