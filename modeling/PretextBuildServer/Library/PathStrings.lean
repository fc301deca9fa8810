import Mathlib.Data.List.Infix

/-!
# Paths as strings

`posixpath` on the characters of a path, and the names a path leads along. No
path involved has a symbolic link on it: `realpath` then looks at the characters
only.
-/

namespace PathStrings

set_option autoImplicit false

abbrev Text := List Char

def curdir : Text := ['.']

def pardir : Text := ['.', '.']

def isabs (path : Text) : Bool := path.head? == some '/'

def join (path more : Text) : Text :=
  if isabs more then more
  else if path = [] ∨ path.getLast? = some '/' then path ++ more
  else path ++ '/' :: more

def rstripSlashes (path : Text) : Text := (path.reverse.dropWhile (· == '/')).reverse

def split (path : Text) : Text × Text :=
  let head := (path.reverse.dropWhile (· != '/')).reverse
  let tail := (path.reverse.takeWhile (· != '/')).reverse
  (if head.all (· == '/') then head else rstripSlashes head, tail)

def dirname (path : Text) : Text := (split path).1

def components (path : Text) : List Text := path.splitOn '/'

/-- Two slashes in front are kept, one is, and more than two are one. -/
def initialSlashes : Text → Nat
  | '/' :: '/' :: '/' :: _ => 1
  | '/' :: '/' :: _ => 2
  | '/' :: _ => 1
  | _ => 0

/-- One round of the loop in `normpath`. -/
def pushComponent (absolute : Bool) (names : List Text) (component : Text) : List Text :=
  if component = [] ∨ component = curdir then names
  else if component ≠ pardir ∨ (absolute = false ∧ names = []) ∨ names.getLast? = some pardir then
    names ++ [component]
  else names.dropLast

def normalNames (path : Text) : List Text :=
  (components path).foldl (pushComponent (isabs path)) []

def normpath (path : Text) : Text :=
  let text := List.replicate (initialSlashes path) '/' ++ ['/'].intercalate (normalNames path)
  if text = [] then curdir else text

/-- One round of the loop in `_joinrealpath`, where nothing is a link. -/
def walkComponent (path component : Text) : Text :=
  if component = [] ∨ component = curdir then path
  else if component = pardir then
    if path = [] then pardir
    else
      let (head, tail) := split path
      if tail = pardir then join (join head pardir) pardir else head
  else join path component

def joinRealpath (rest : Text) : Text :=
  if isabs rest then (components (rest.drop 1)).foldl walkComponent ['/']
  else (components rest).foldl walkComponent []

def abspath (cwd path : Text) : Text := normpath (if isabs path then path else join cwd path)

def realpath (cwd path : Text) : Text := abspath cwd (joinRealpath path)

/-! ## The names a path leads along -/

/-- One name after the other: `..` goes back, `.` and the empty name stay. -/
def enter (names : List Text) (component : Text) : List Text :=
  if component = [] ∨ component = curdir then names
  else if component = pardir then names.dropLast
  else names ++ [component]

def resolve (names : List Text) (path : List Text) : List Text := path.foldl enter names

/-- A name an entry of a directory can have. -/
def IsName (name : Text) : Prop := name ≠ [] ∧ '/' ∉ name ∧ name ≠ curdir ∧ name ≠ pardir

/-- Where a process stands, by its names from the root. -/
structure WorkingDirectory where
  names : List Text
  valid : ∀ name ∈ names, IsName name

/-- Where a path leads, by its names from the root. -/
def WorkingDirectory.located (cwd : WorkingDirectory) (path : Text) : List Text :=
  resolve (if isabs path then [] else cwd.names) (components path)

/-- The text of an absolute or relative path with these names. -/
def render (absolute : Bool) (names : List Text) : Text :=
  (if absolute then ['/'] else []) ++ ['/'].intercalate names

def WorkingDirectory.text (cwd : WorkingDirectory) : Text := render true cwd.names

section Resolving

variable {names path : List Text} {name : Text}

theorem resolve_append (names front back : List Text) :
    resolve names (front ++ back) = resolve (resolve names front) back := List.foldl_append

theorem enter_name (valid : IsName name) (names : List Text) :
    enter names name = names ++ [name] := by
  rw [enter, if_neg (by simp [valid.1, valid.2.2.1]), if_neg valid.2.2.2]

theorem resolve_names (valid : ∀ name ∈ path, IsName name) (names : List Text) :
    resolve names path = names ++ path := by
  induction path generalizing names with
  | nil => simp [resolve]
  | cons first path induction =>
      obtain ⟨isName, others⟩ := List.forall_mem_cons.mp valid
      rw [resolve, List.foldl_cons, enter_name isName, ← resolve, induction others]
      simp

theorem enter_valid {component : Text} (slash : '/' ∉ component)
    (valid : ∀ name ∈ names, IsName name) : ∀ name ∈ enter names component, IsName name := by
  unfold enter
  split
  · exact valid
  · split
    · intro name member
      exact valid name (List.mem_of_mem_dropLast member)
    · rename_i stays back
      rw [not_or] at stays
      rw [List.forall_mem_append, List.forall_mem_singleton]
      exact ⟨valid, stays.1, slash, stays.2, back⟩

theorem resolve_valid (slash : ∀ component ∈ path, '/' ∉ component)
    (valid : ∀ name ∈ names, IsName name) : ∀ name ∈ resolve names path, IsName name := by
  induction path generalizing names with
  | nil => exact valid
  | cons first path induction =>
      obtain ⟨plain, others⟩ := List.forall_mem_cons.mp slash
      exact induction others (enter_valid plain valid)

theorem components_slash (path : Text) : ∀ component ∈ components path, '/' ∉ component := by
  have plain : ∀ path : Text, ∀ component ∈ path.splitOn '/', '/' ∉ component := by
    intro path
    induction path with
    | nil => simp
    | cons c path induction =>
        rw [List.splitOn_cons_eq_if_modifyHead]
        split
        · exact List.forall_mem_cons.mpr ⟨by simp, induction⟩
        · rename_i other
          cases parts : path.splitOn '/' with
          | nil => exact absurd parts (List.splitOn_ne_nil _ _)
          | cons first rest =>
              rw [parts] at induction
              obtain ⟨plain, others⟩ := List.forall_mem_cons.mp induction
              refine List.forall_mem_cons.mpr ⟨?_, others⟩
              rw [List.mem_cons, not_or]
              exact ⟨fun same => other (beq_iff_eq.mpr same.symm), plain⟩
  exact plain path

theorem located_valid (cwd : WorkingDirectory) (path : Text) :
    ∀ name ∈ cwd.located path, IsName name := by
  apply resolve_valid (components_slash path)
  split
  · simp
  · exact cwd.valid

end Resolving

/-! ## Texts of names -/

/-- A name, or `..`. -/
def IsPart (name : Text) : Prop := name ≠ [] ∧ '/' ∉ name ∧ name ≠ curdir

theorem part_of_name {name : Text} (valid : IsName name) : IsPart name :=
  ⟨valid.1, valid.2.1, valid.2.2.1⟩

theorem pardir_part : IsPart pardir := by
  refine ⟨by simp [pardir], by simp [pardir], by simp [pardir, curdir]⟩

section Rendering

variable {absolute : Bool} {names : List Text} {name component : Text}

theorem intercalate_append {back : List Text} (some : names ≠ []) (more : back ≠ []) :
    ['/'].intercalate (names ++ back) = ['/'].intercalate names ++ '/' :: ['/'].intercalate back := by
  induction names with
  | nil => exact absurd rfl some
  | cons first names induction =>
      by_cases last : names = []
      · rw [last, List.singleton_append, List.intercalate_cons_of_ne_nil more]
        simp
      · rw [List.cons_append, List.intercalate_cons_of_ne_nil (by simp [last]), induction last,
          List.intercalate_cons_of_ne_nil last]
        simp

theorem render_concat (absolute : Bool) (names : List Text) (name : Text) :
    render absolute (names ++ [name]) =
      (if names = [] then render absolute [] else render absolute names ++ ['/']) ++ name := by
  by_cases first : names = []
  · simp [first, render]
  · rw [if_neg first, render, render, intercalate_append first (List.cons_ne_nil name [])]
    simp

theorem last_not_slash (part : IsPart name) : ∃ c, name.getLast? = some c ∧ c ≠ '/' := by
  obtain ⟨c, last⟩ := Option.ne_none_iff_exists'.mp
    (fun none => part.1 (List.getLast?_eq_none_iff.mp none))
  refine ⟨c, last, ?_⟩
  rintro rfl
  exact part.2.1 (List.mem_of_getLast? last)

theorem not_isabs (slash : '/' ∉ name) : isabs name = false := by
  cases name with
  | nil => rfl
  | cons c name =>
      rw [isabs, List.head?_cons, beq_eq_false_iff_ne]
      rintro ⟨⟩
      exact slash List.mem_cons_self

theorem join_render (part : IsPart name) (parts : ∀ other ∈ names, IsPart other) :
    join (render absolute names) name = render absolute (names ++ [name]) := by
  rw [join, not_isabs part.2.1, if_neg Bool.false_ne_true, render_concat]
  cases names using List.reverseRecOn with
  | nil => cases absolute <;> simp [render]
  | append_singleton names last =>
      obtain ⟨c, ends, plain⟩ := last_not_slash (parts last (by simp))
      rw [if_neg, if_neg (by simp)]
      · simp
      · rw [render_concat, List.getLast?_append, ends]
        simp [plain, (parts last (by simp)).1]

theorem split_at (slash : '/' ∉ name) {front : Text}
    (ends : front = [] ∨ front.getLast? = some '/') :
    split (front ++ name) = (if front.all (· == '/') then front else rstripSlashes front, name) := by
  have plain : ∀ c ∈ name.reverse, (c != '/') = true := by
    intro c member
    rw [bne_iff_ne]
    rintro rfl
    exact slash (List.mem_reverse.mp member)
  have stops : front.reverse.takeWhile (· != '/') = [] ∧
      front.reverse.dropWhile (· != '/') = front.reverse := by
    cases front using List.reverseRecOn with
    | nil => exact ⟨rfl, rfl⟩
    | append_singleton front c =>
        rw [List.getLast?_concat, Option.some.injEq] at ends
        simp [ends.resolve_left (by simp)]
  rw [split, List.reverse_append, List.takeWhile_append_of_pos plain,
    List.dropWhile_append_of_pos plain, stops.1, stops.2]
  simp

theorem split_below (slash : '/' ∉ name) {front : Text} {c : Char} (ends : front.getLast? = some c)
    (plain : c ≠ '/') : split (front ++ '/' :: name) = (front, name) := by
  obtain ⟨text, same⟩ := List.getLast?_eq_some_iff.mp ends
  rw [List.append_cons, split_at slash (by simp), same, if_neg]
  · simp [rstripSlashes, plain]
  · simp [plain]

theorem render_last (parts : ∀ other ∈ names, IsPart other) (some : names ≠ []) :
    ∃ c, (render absolute names).getLast? = .some c ∧ c ≠ '/' := by
  cases names using List.reverseRecOn with
  | nil => exact absurd rfl some
  | append_singleton names last =>
      obtain ⟨c, ends, plain⟩ := last_not_slash (parts last (by simp))
      refine ⟨c, ?_, plain⟩
      rw [render_concat, List.getLast?_append, ends, Option.some_or]

theorem split_render (parts : ∀ other ∈ names ++ [name], IsPart other) :
    split (render absolute (names ++ [name])) = (render absolute names, name) := by
  have slash := (parts name (by simp)).2.1
  rw [render_concat]
  by_cases first : names = []
  · rw [if_pos first, split_at slash, first]
    · cases absolute <;> rfl
    · cases absolute <;> simp [render]
  · obtain ⟨c, ends, plain⟩ :=
      @render_last absolute _ (fun other member => parts other (List.mem_append_left _ member)) first
    rw [if_neg first, List.append_assoc, List.singleton_append, split_below slash ends plain]

/-! ## Normal forms -/

theorem push_parts (slash : '/' ∉ component) (parts : ∀ other ∈ names, IsPart other) :
    ∀ other ∈ pushComponent absolute names component, IsPart other := by
  unfold pushComponent
  split
  · exact parts
  · rename_i stays
    rw [not_or] at stays
    split
    · rw [List.forall_mem_append, List.forall_mem_singleton]
      exact ⟨parts, stays.1, slash, stays.2⟩
    · intro other member
      exact parts other (List.mem_of_mem_dropLast member)

theorem push_all_parts {path : List Text} (slash : ∀ component ∈ path, '/' ∉ component)
    (parts : ∀ other ∈ names, IsPart other) :
    ∀ other ∈ path.foldl (pushComponent absolute) names, IsPart other := by
  induction path generalizing names with
  | nil => exact parts
  | cons first path induction =>
      obtain ⟨plain, others⟩ := List.forall_mem_cons.mp slash
      exact induction others (push_parts plain parts)

theorem normal_parts (path : Text) : ∀ name ∈ normalNames path, IsPart name :=
  push_all_parts (components_slash path) (by simp)

theorem push_absolute (clear : pardir ∉ names) :
    pushComponent true names component = enter names component ∧
      pardir ∉ enter names component := by
  have last : names.getLast? ≠ some pardir := fun ends => clear (List.mem_of_getLast? ends)
  unfold pushComponent enter
  by_cases stays : component = [] ∨ component = curdir
  · rw [if_pos stays, if_pos stays]
    exact ⟨rfl, clear⟩
  · rw [if_neg stays, if_neg stays]
    by_cases back : component = pardir
    · rw [if_pos back, if_neg (by simp [back, last])]
      exact ⟨rfl, fun member => clear (List.mem_of_mem_dropLast member)⟩
    · rw [if_neg back, if_pos (.inl back)]
      simp [clear, Ne.symm back]

theorem push_all_absolute {path : List Text} (clear : pardir ∉ names) :
    path.foldl (pushComponent true) names = resolve names path ∧ pardir ∉ resolve names path := by
  induction path generalizing names with
  | nil => exact ⟨rfl, clear⟩
  | cons first path induction =>
      obtain ⟨same, still⟩ := @push_absolute names first clear
      rw [List.foldl_cons, same]
      exact induction still

/-- The round of `_joinrealpath` on the text of names is that of `normpath`. -/
theorem walk_render (slash : '/' ∉ component) (parts : ∀ other ∈ names, IsPart other)
    (clear : absolute = true → pardir ∉ names) :
    walkComponent (render absolute names) component =
      render absolute (pushComponent absolute names component) := by
  unfold walkComponent pushComponent
  split
  · rfl
  · rename_i stays
    rw [not_or] at stays
    split
    · rename_i back
      cases names using List.reverseRecOn with
      | nil =>
          cases absolute with
          | true => simp [back, render, split, pardir]
          | false => simp [back, render]
      | append_singleton names last =>
          have nonempty : render absolute (names ++ [last]) ≠ [] := by
            rw [render_concat]
            simp [(parts last (by simp)).1]
          rw [if_neg nonempty, split_render parts]
          simp only
          have earlier : ∀ other ∈ names, IsPart other :=
            fun other member => parts other (List.mem_append_left _ member)
          by_cases up : last = pardir
          · subst up back
            rw [if_pos rfl, join_render pardir_part earlier, join_render pardir_part parts,
              if_pos (.inr (.inr List.getLast?_concat))]
          · rw [if_neg up, if_neg (by simp [back, up]), List.dropLast_concat]
    · rename_i forth
      rw [if_pos (.inl forth), join_render ⟨stays.1, slash, stays.2⟩ parts]

end Rendering

/-! ## Where the texts lead -/

section Leading

variable {absolute : Bool} {start names path : List Text} {component more : Text}

/-- Reducing a path does not change where it leads. -/
theorem resolve_push (parts : ∀ other ∈ names, IsPart other) (root : absolute = true → start = []) :
    resolve start (pushComponent absolute names component) =
      enter (resolve start names) component := by
  have again : ∀ name, resolve start (names ++ [name]) = enter (resolve start names) name :=
    fun name => resolve_append start names [name]
  unfold pushComponent
  by_cases stays : component = [] ∨ component = curdir
  · rw [if_pos stays, enter, if_pos stays]
  · rw [if_neg stays]
    split
    · exact again component
    · rename_i popped
      simp only [not_or, ne_eq, not_and, Decidable.not_not] at popped
      obtain ⟨back, inside, last⟩ := popped
      rw [enter, if_neg stays, if_pos back]
      cases names using List.reverseRecOn with
      | nil =>
          cases absolute with
          | true => rw [root rfl]; rfl
          | false => exact absurd rfl (inside rfl)
      | append_singleton names last' =>
          have part := parts last' (by simp)
          have isName : IsName last' := ⟨part.1, part.2.1, part.2.2, by simpa using last⟩
          have one : ∀ name ∈ [last'], IsName name := by simpa using isName
          rw [List.dropLast_concat, resolve_append, resolve_names one, List.dropLast_concat]

theorem resolve_push_all {path : List Text} (slash : ∀ component ∈ path, '/' ∉ component)
    (parts : ∀ other ∈ names, IsPart other) (root : absolute = true → start = []) :
    resolve start (path.foldl (pushComponent absolute) names) =
      resolve (resolve start names) path := by
  induction path generalizing names with
  | nil => rfl
  | cons first path induction =>
      obtain ⟨plain, others⟩ := List.forall_mem_cons.mp slash
      rw [List.foldl_cons, induction others (push_parts plain parts), resolve_push parts root]
      rfl

theorem resolve_normal (text : Text) (root : isabs text = true → start = []) :
    resolve start (normalNames text) = resolve start (components text) :=
  resolve_push_all (components_slash text) (by simp) root

theorem normal_absolute {text : Text} (absolute : isabs text = true) :
    normalNames text = resolve [] (components text) := by
  rw [normalNames, absolute]
  exact (push_all_absolute (by simp)).1

theorem components_append (front back : Text) :
    components (front ++ '/' :: back) = components front ++ components back :=
  List.splitOn_append_cons_self front back

theorem resolve_start_slash (start : List Text) (text : Text) :
    resolve start (components ('/' :: text)) = resolve start (components text) := by
  rw [← List.nil_append ('/' :: text), components_append, resolve_append]
  rfl

theorem resolve_intercalate (parts : ∀ other ∈ names, IsPart other) :
    resolve start (components (['/'].intercalate names)) = resolve start names := by
  by_cases none : names = []
  · rw [none]
    rfl
  · rw [components, List.splitOn_intercalate '/' (fun name member => (parts name member).2.1) none]

theorem resolve_render (parts : ∀ other ∈ names, IsPart other) :
    resolve start (components (render absolute names)) = resolve start names := by
  cases absolute with
  | true => exact (resolve_start_slash start _).trans (resolve_intercalate parts)
  | false => exact resolve_intercalate parts

theorem foldl_join {State : Type} (step : State → Text → State)
    (stays : ∀ state, step state [] = state)
    {path : Text} (relative : isabs more = false) (state : State) :
    (components (join path more)).foldl step state =
      (components more).foldl step ((components path).foldl step state) := by
  rw [join, relative, if_neg Bool.false_ne_true]
  split
  · rename_i ends
    cases path using List.reverseRecOn with
    | nil => exact congrArg (List.foldl step · _) (stays state).symm
    | append_singleton path c =>
        have slash : c = '/' := by simpa using ends
        rw [slash, List.append_assoc, List.singleton_append, components_append, components_append,
          List.foldl_append, List.foldl_append]
        exact congrArg (List.foldl step · _) (stays _).symm
  · rw [components_append, List.foldl_append]

theorem resolve_join {path : Text} (relative : isabs more = false) :
    resolve start (components (join path more)) =
      resolve (resolve start (components path)) (components more) :=
  foldl_join enter (fun _ => rfl) relative start

theorem isabs_join {path : Text} (relative : isabs more = false) :
    isabs (join path more) = isabs path := by
  rw [join, relative, if_neg Bool.false_ne_true]
  cases path with
  | nil => exact relative
  | cons c path => split <;> rfl

theorem isabs_render (parts : ∀ other ∈ names, IsPart other) :
    isabs (render absolute names) = absolute := by
  cases absolute with
  | true => rfl
  | false =>
      cases names with
      | nil => rfl
      | cons first names =>
          obtain ⟨c, text, same⟩ := List.exists_cons_of_ne_nil (parts first (by simp)).1
          have slash := (parts first (by simp)).2.1
          have plain : isabs first = false := not_isabs slash
          rw [same] at plain
          cases names with
          | nil => simpa [render, same] using plain
          | cons second names =>
              simpa [render, List.intercalate_cons_cons, same, isabs] using plain

theorem join_realpath_text (path : Text) :
    joinRealpath path = render (isabs path) (normalNames path) := by
  have walked : ∀ (absolute : Bool) (components names : List Text),
      (∀ component ∈ components, '/' ∉ component) → (∀ other ∈ names, IsPart other) →
      (absolute = true → pardir ∉ names) →
      components.foldl walkComponent (render absolute names) =
        render absolute (components.foldl (pushComponent absolute) names) := by
    intro absolute components
    induction components with
    | nil => exact fun _ _ _ _ => rfl
    | cons first components induction =>
        intro names slash parts clear
        obtain ⟨plain, others⟩ := List.forall_mem_cons.mp slash
        rw [List.foldl_cons, walk_render plain parts clear]
        apply induction _ others (push_parts plain parts)
        rintro rfl
        rw [(push_absolute (clear rfl)).1]
        exact (push_absolute (clear rfl)).2
  unfold joinRealpath normalNames
  split
  · rename_i absolute
    rw [absolute]
    cases path with
    | nil => cases absolute
    | cons c path =>
        have slash : c = '/' := by simpa [isabs] using absolute
        have same : components (c :: path) = [] :: components path := by
          rw [slash]
          exact components_append [] path
        rw [same]
        exact walked true (components path) [] (components_slash path) (by simp) (by simp)
  · rename_i relative
    rw [Bool.not_eq_true] at relative
    rw [relative]
    exact walked false (components path) [] (components_slash path) (by simp) (by simp)

theorem one_slash {text : Text} (relative : isabs text = false) :
    initialSlashes ('/' :: text) = 1 := by
  unfold initialSlashes
  split
  · rfl
  · rename_i same
    rw [List.cons_inj_right] at same
    rw [same] at relative
    cases relative
  · rfl
  · rename_i other
    exact absurd rfl (other text)

/-- An absolute path with one slash in front is reduced to the text of the names
it leads along. -/
theorem normpath_absolute {text : Text} (relative : isabs text = false) :
    normpath ('/' :: text) = render true (resolve [] (components text)) := by
  rw [normpath, one_slash relative, normal_absolute (by rfl), resolve_start_slash]
  simp [render]

/-- `realpath` gives the text of the names a path leads along. -/
theorem realpath_text (cwd : WorkingDirectory) (path : Text) :
    realpath cwd.text path = render true (cwd.located path) := by
  have parts := normal_parts path
  have names : ∀ name ∈ cwd.names, IsPart name := fun name member => part_of_name (cwd.valid name member)
  have normal : resolve (if isabs path then [] else cwd.names) (normalNames path) =
      cwd.located path := by
    apply resolve_normal
    intro absolute
    rw [if_pos absolute]
  have bare : isabs (['/'].intercalate (normalNames path)) = false := @isabs_render false _ parts
  rw [realpath, join_realpath_text, abspath, isabs_render parts]
  cases absolute : isabs path with
  | true =>
      rw [absolute, if_pos rfl] at normal
      rw [if_pos rfl]
      exact (normpath_absolute bare).trans (by rw [resolve_intercalate parts, normal])
  | false =>
      rw [absolute, if_neg Bool.false_ne_true] at normal
      rw [if_neg Bool.false_ne_true]
      have whole : ∃ text, join cwd.text (render false (normalNames path)) = '/' :: text ∧
          isabs text = false := by
        rw [join, isabs_render parts, if_neg Bool.false_ne_true]
        by_cases root : cwd.names = []
        · refine ⟨_, ?_, bare⟩
          rw [WorkingDirectory.text, root, if_pos (by simp [render])]
          rfl
        · have inner : isabs (['/'].intercalate cwd.names) = false := @isabs_render false _ names
          have nonempty : ['/'].intercalate cwd.names ≠ [] := by
            intro empty
            have resolved := @resolve_intercalate [] _ names
            rw [empty, resolve_names cwd.valid] at resolved
            exact root resolved.symm
          obtain ⟨c, text, same⟩ := List.exists_cons_of_ne_nil nonempty
          rw [same] at inner
          split
          · refine ⟨_, rfl, ?_⟩
            rw [same]
            exact inner
          · refine ⟨_, rfl, ?_⟩
            rw [same]
            exact inner
      obtain ⟨text, same, relative⟩ := whole
      have joined := @resolve_join [] _ cwd.text (@isabs_render false _ parts)
      rw [same, resolve_start_slash, WorkingDirectory.text, resolve_render names, resolve_render parts,
        resolve_names cwd.valid, List.nil_append, normal] at joined
      rw [same, normpath_absolute relative, joined]

theorem located_join {cwd : WorkingDirectory} {path : Text} :
    cwd.located (join path more) =
      resolve (if isabs more then [] else cwd.located path) (components more) := by
  cases absolute : isabs more with
  | true =>
      rw [join, absolute, if_pos rfl, if_pos rfl, WorkingDirectory.located, absolute, if_pos rfl]
  | false =>
      rw [if_neg Bool.false_ne_true, WorkingDirectory.located, isabs_join absolute,
        resolve_join absolute]
      rfl

/-! ### The directory above a reduced path -/

theorem normal_join {path : Text} (relative : isabs more = false) :
    normalNames (join path more) =
      (components more).foldl (pushComponent (isabs path)) (normalNames path) := by
  rw [normalNames, isabs_join relative]
  exact foldl_join (pushComponent (isabs path)) (fun _ => rfl) relative []

theorem push_names (valid : ∀ name ∈ path, IsName name) (names : List Text) :
    path.foldl (pushComponent absolute) names = names ++ path := by
  induction path generalizing names with
  | nil => simp
  | cons first path induction =>
      obtain ⟨isName, others⟩ := List.forall_mem_cons.mp valid
      have pushed : pushComponent absolute names first = names ++ [first] := by
        rw [pushComponent, if_neg (by simp [isName.1, isName.2.2.1]), if_pos (.inl isName.2.2.2)]
      rw [List.foldl_cons, pushed, induction others]
      simp

/-- `..` is only kept below other `..`. -/
def Bottom (names : List Text) : Prop :=
  ∀ front back, names = front ++ pardir :: back → ∀ name ∈ front, name = pardir

theorem push_bottom (bottom : Bottom names) : Bottom (pushComponent absolute names component) := by
  have whole : names = [] ∨ names.getLast? = some pardir → ∀ name ∈ names, name = pardir := by
    rintro (rfl | last)
    · simp
    · rw [List.getLast?_eq_some_iff] at last
      obtain ⟨front, rfl⟩ := last
      rw [List.forall_mem_append, List.forall_mem_singleton]
      exact ⟨bottom front [] rfl, rfl⟩
  unfold pushComponent
  split
  · exact bottom
  · split
    · rename_i pushed
      intro front back same
      cases back using List.reverseRecOn with
      | nil =>
          obtain ⟨rfl, one⟩ := List.append_inj' same rfl
          have up : component = pardir := (List.cons.inj one).1
          rcases pushed with forth | ⟨-, none⟩ | last
          · exact absurd up forth
          · exact whole (.inl none)
          · exact whole (.inr last)
      | append_singleton back last =>
          rw [← List.cons_append, ← List.append_assoc] at same
          exact bottom front back (List.append_inj' same rfl).1
    · intro front back same
      cases names using List.reverseRecOn with
      | nil => simp at same
      | append_singleton names last =>
          rw [List.dropLast_concat] at same
          exact bottom front (back ++ [last]) (by rw [same]; simp)

theorem normal_bottom (text : Text) : Bottom (normalNames text) := by
  have pushed : ∀ (path names : List Text), Bottom names →
      Bottom (path.foldl (pushComponent (isabs text)) names) := by
    intro path
    induction path with
    | nil => exact fun _ bottom => bottom
    | cons first path induction => exact fun names bottom => induction _ (push_bottom bottom)
  apply pushed
  intro front back same
  simp at same

theorem resolve_pardirs (up : ∀ name ∈ path, name = pardir) (names : List Text) :
    resolve names path <+: names := by
  induction path generalizing names with
  | nil => exact List.prefix_refl names
  | cons first path induction =>
      obtain ⟨rfl, others⟩ := List.forall_mem_cons.mp up
      have back : enter names pardir = names.dropLast := by
        rw [enter, if_neg (by simp [pardir, curdir]), if_pos rfl]
      rw [resolve, List.foldl_cons, back]
      exact (induction others _).trans (List.dropLast_prefix names)

theorem slashes_iff (text : Text) : initialSlashes text = 0 ↔ isabs text = false := by
  unfold initialSlashes
  split
  · simp [isabs]
  · simp [isabs]
  · simp [isabs]
  · rename_i other
    refine iff_of_true rfl ?_
    cases text with
    | nil => rfl
    | cons c text =>
        rw [isabs, List.head?_cons, beq_eq_false_iff_ne]
        rintro ⟨⟩
        exact other text rfl

theorem resolve_slashes (count : Nat) (text : Text) :
    resolve start (components (List.replicate count '/' ++ text)) =
      resolve start (components text) := by
  induction count with
  | zero => rfl
  | succ count induction =>
      rw [List.replicate_succ, List.cons_append, resolve_start_slash, induction]

theorem isabs_slashes (text : Text) (parts : ∀ other ∈ names, IsPart other) :
    isabs (List.replicate (initialSlashes text) '/' ++ ['/'].intercalate names) = isabs text := by
  cases count : initialSlashes text with
  | zero =>
      rw [(slashes_iff text).mp count]
      exact @isabs_render false _ parts
  | succ more =>
      have absolute : isabs text = true := by
        by_contra relative
        rw [Bool.not_eq_true, ← slashes_iff, count] at relative
        cases relative
      rw [absolute]
      rfl

theorem located_normpath (cwd : WorkingDirectory) (text : Text) :
    cwd.located (normpath text) = cwd.located text := by
  have parts := normal_parts text
  have kept := isabs_slashes text parts
  have normal := @resolve_normal (if isabs text then [] else cwd.names) text (fun absolute => if_pos absolute)
  have led := @resolve_slashes (if isabs text then [] else cwd.names) (initialSlashes text)
    (['/'].intercalate (normalNames text))
  rw [resolve_intercalate parts, normal] at led
  rw [normpath]
  split
  · rename_i empty
    rw [empty] at kept led
    have relative : isabs text = false := kept.symm
    rw [WorkingDirectory.located, WorkingDirectory.located, ← led, relative]
    rfl
  · rw [WorkingDirectory.located, WorkingDirectory.located, kept, led]

theorem dirname_normpath (cwd : WorkingDirectory) {text last : Text}
    (normal : normalNames text = names ++ [last]) :
    cwd.located (dirname (normpath text)) =
      resolve (if isabs text then [] else cwd.names) names := by
  have parts := normal_parts text
  rw [normal] at parts
  have earlier : ∀ other ∈ names, IsPart other :=
    fun other member => parts other (List.mem_append_left _ member)
  have slash := (parts last (by simp)).2.1
  have nonempty := (parts last (by simp)).1
  let slashes := List.replicate (initialSlashes text) '/'
  have above : cwd.located (slashes ++ ['/'].intercalate names) =
      resolve (if isabs text then [] else cwd.names) names := by
    rw [WorkingDirectory.located, isabs_slashes text earlier, resolve_slashes,
      resolve_intercalate earlier]
  rw [← above]
  congr 1
  have whole : normpath text = slashes ++ ['/'].intercalate (names ++ [last]) := by
    rw [normpath, normal, if_neg]
    intro empty
    obtain ⟨c, ends, -⟩ := @render_last false _ parts (by simp)
    rw [render, if_neg Bool.false_ne_true, List.nil_append, (List.append_eq_nil_iff.mp empty).2] at ends
    cases ends
  rw [whole]
  by_cases first : names = []
  · rw [first, List.nil_append, List.intercalate_singleton, dirname, split_at slash]
    · simp [slashes]
    · cases count : initialSlashes text with
      | zero => exact .inl (by simp [slashes, count])
      | succ more => exact .inr (by simp [slashes, count, List.replicate_succ'])
  · obtain ⟨c, ends, plain⟩ := @render_last false _ earlier first
    have ended : (slashes ++ ['/'].intercalate names).getLast? = some c := by
      rw [List.getLast?_append]
      simpa [render] using congrArg (Option.or · slashes.getLast?) ends
    rw [intercalate_append first (by simp), List.intercalate_singleton, ← List.append_assoc, dirname,
      split_below slash ended plain]

end Leading

/-! ## Prefixes of texts and of names -/

theorem components_rendered {names : List Text} (valid : ∀ name ∈ names, IsName name)
    (some : names ≠ []) : components (render true names) = [] :: names := by
  have split : components (['/'].intercalate names) = names :=
    List.splitOn_intercalate '/' (fun name member => (valid name member).2.1) some
  have front := components_append [] (['/'].intercalate names)
  rw [split] at front
  exact front

/-- The text of a directory and a slash is the start of a path exactly if the
path leads further down from it. -/
theorem prefix_render {dir place : List Text} (some : dir ≠ []) (valid : ∀ name ∈ dir, IsName name)
    (names : ∀ name ∈ place, IsName name) :
    render true place = render true dir ∨ render true dir ++ ['/'] <+: render true place ↔
      dir <+: place := by
  have nonempty : ∀ rest, [] :: dir ++ rest ≠ components (render true []) := by
    intro rest same
    obtain ⟨first, others, rfl⟩ := List.exists_cons_of_ne_nil some
    have empty : first = [] := (List.cons.inj (List.cons.inj same).2).1
    exact (valid first List.mem_cons_self).1 empty
  have split := components_rendered valid some
  by_cases root : place = []
  · rw [root]
    apply iff_of_false
    · rintro (same | ⟨rest, same⟩)
      · apply nonempty []
        rw [List.append_nil, ← split, same]
      · apply nonempty (components rest)
        rw [← split, ← components_append, ← same, List.append_assoc, List.singleton_append]
    · intro within
      exact some (List.prefix_nil.mp within)
  · have splitPlace := components_rendered names root
    constructor
    · rintro (same | ⟨rest, same⟩)
      · rw [same, split] at splitPlace
        rw [(List.cons.inj splitPlace).2]
      · rw [← same, List.append_assoc, List.singleton_append, components_append, split] at splitPlace
        exact ⟨_, (List.cons.inj splitPlace).2⟩
    · rintro ⟨back, rfl⟩
      by_cases none : back = []
      · exact .inl (by rw [none, List.append_nil])
      · right
        refine ⟨['/'].intercalate back, ?_⟩
        rw [render, render, intercalate_append some none]
        simp

end PathStrings
