import DocTools.Proofs.Path.Leads

/-! # Steps along a path

A path is followed name by name: `..` leads up, `.` nowhere, and any other name down. The main
statement, `parent?_of_steps`, is for every path that takes a step, dots included: its parent takes all
its steps but the last one and is what the path begins with. -/
namespace DocTools.Path
set_option autoImplicit false

variable {path : Path} {front way : List Component} {last : Component}

/-! ## Steps and pieces -/

/-- The steps up and down that the names of a path stand for. -/
def steps (path : Path) : List Component := path.names.filterMap Component.ofName?

/-- A step is what its own text stands for. -/
def IsStep (c : Component) : Prop := Component.ofName? c.text = some c

theorem text_of_ofName? {name : Text} {c : Component} (h : Component.ofName? name = some c) :
    c.text = name := by
  unfold Component.ofName? at h
  split at h
  · cases h
  · split at h
    · next hup =>
      cases h
      exact hup.symm
    · cases h
      rfl

theorem isStep_of_mem_steps {c : Component} (h : c ∈ path.steps) : IsStep c := by
  obtain ⟨name, -, hname⟩ := List.mem_filterMap.mp h
  rw [IsStep, text_of_ofName? hname, hname]

theorem resolve_eq_steps (path : Path) : resolve path = path.steps.foldl follow [] := by
  rw [resolve, components_eq_append, List.foldl_append]
  -- the root and a leading `.` stay where they are
  split
  · rfl
  · split <;> rfl

theorem ofName?_ne {name : Text} {c : Component} (h : Component.ofName? name = some c) :
    c ≠ .here ∧ c ≠ .root := by
  unfold Component.ofName? at h
  split at h
  · cases h
  · split at h
    · cases h
      exact ⟨nofun, nofun⟩
    · cases h
      exact ⟨nofun, nofun⟩

/-- The steps are the components, but for what a path begins with. -/
theorem steps_eq_filter (path : Path) :
    path.steps = path.components.filter fun c => c ≠ .here ∧ c ≠ .root := by
  have hsteps : path.steps.filter (fun c => c ≠ .here ∧ c ≠ .root) = path.steps := by
    refine List.filter_eq_self.mpr fun c hc => ?_
    obtain ⟨name, -, hname⟩ := List.mem_filterMap.mp hc
    exact decide_eq_true (ofName?_ne hname)
  rw [components_eq_append, List.filter_append]
  refine hsteps.symm.trans ?_
  split
  · rfl
  · split <;> rfl

theorem steps_join {path : Path} (base : Path) (h : path.isAbsolute = false) :
    (join base path).steps = base.steps ++ path.steps := by
  by_cases hbase : base = []
  · rw [hbase, join, h]
    rfl
  · rw [steps, names_join hbase h, List.filterMap_append]
    rfl

theorem map_text_pieces (pieces : List Text) :
    ((pieces.filter fun piece => !piece.isEmpty).filterMap Component.ofName?).map Component.text =
      pieces.filter fun piece => !isIdle piece := by
  induction pieces with
  | nil => rfl
  | cons piece pieces ih =>
    by_cases hnil : piece = []
    · subst hnil
      exact ih
    · rw [List.filter_cons_of_pos (by simpa using hnil)]
      by_cases hhere : piece = ['.']
      · subst hhere
        exact ih
      · have hidle : isIdle piece = false :=
          Bool.or_eq_false_iff.mpr ⟨List.isEmpty_eq_false_iff.mpr hnil, beq_false_of_ne hhere⟩
        rw [List.filter_cons_of_pos (by rw [hidle]; rfl), ← ih]
        cases hname : Component.ofName? piece with
        | none =>
          rw [Component.ofName?, if_neg hhere] at hname
          split at hname <;> cases hname
        | some c =>
          rw [List.filterMap_cons_some hname, List.map_cons, text_of_ofName? hname]

theorem filterMap_map_text (h : ∀ c ∈ way, IsStep c) :
    (way.map Component.text).filterMap Component.ofName? = way := by
  rw [List.filterMap_map]
  induction way with
  | nil => rfl
  | cons c way ih =>
    have hc : (Component.ofName? ∘ Component.text) c = some c := h c List.mem_cons_self
    rw [List.filterMap_cons_some hc, ih fun d hd => h d (List.mem_cons_of_mem _ hd)]

/-- Pieces that name some steps, idle pieces apart, stand for these steps. -/
theorem filterMap_pieces (hway : ∀ c ∈ way, IsStep c) {pieces : List Text}
    (h : (pieces.filter fun piece => !isIdle piece) = way.map Component.text) :
    (pieces.filter fun piece => !piece.isEmpty).filterMap Component.ofName? = way := by
  have hsteps : ∀ c ∈ (pieces.filter fun piece => !piece.isEmpty).filterMap Component.ofName?,
      IsStep c := by
    intro c hc
    obtain ⟨name, -, hname⟩ := List.mem_filterMap.mp hc
    rw [IsStep, text_of_ofName? hname, hname]
  rw [← filterMap_map_text hsteps, map_text_pieces, h, filterMap_map_text hway]

/-! ## Paths that end with their last step -/

/-- A relative path takes some steps and ends with the last of them, but for slashes. -/
structure Ends (path : Path) (way : List Component) : Prop where
  relative : path.isAbsolute = false
  steps_eq : path.steps = way
  last_eq : ∀ c ∈ way.getLast?, path.names.getLast? = some c.text

theorem Ends.isStep (h : Ends path way) : ∀ c ∈ way, IsStep c := by
  intro c hc
  rw [← h.steps_eq] at hc
  exact isStep_of_mem_steps hc

theorem Ends.resolve_eq (h : Ends path way) : resolve path = way.foldl follow [] := by
  rw [resolve_eq_steps, h.steps_eq]

theorem Ends.ne_nil (h : Ends path (front ++ [last])) : path ≠ [] := by
  rintro rfl
  have hlast := h.last_eq last List.getLast?_concat
  cases hlast

theorem Ends.names_eq (h : Ends path (front ++ [last])) :
    ∃ before, path.names = before ++ [last.text] ∧ before.filterMap Component.ofName? = front := by
  obtain ⟨before, hbefore⟩ := List.getLast?_eq_some_iff.mp (h.last_eq last List.getLast?_concat)
  refine ⟨before, hbefore, ?_⟩
  have hlast : Component.ofName? last.text = some last :=
    h.isStep last (List.mem_append_right _ (List.mem_singleton_self _))
  have hsteps := h.steps_eq
  rw [steps, hbefore, List.filterMap_append, List.filterMap_cons_some hlast, List.filterMap_nil] at hsteps
  exact List.append_cancel_right hsteps

/-! ## Parents -/

/-- A path is cut behind the `.` it may begin with. -/
inductive Led : Text → Text → Prop
  | plain (body : Text) : Led [] body
  | here : Led ['.'] []
  | below (rest : Text) : Led ['.'] ('/' :: rest)

theorem Led.names_eq {lead body : Text} (h : Led lead body) :
    names (lead ++ body) = names lead ++ names body := by
  cases h with
  | plain body => rfl
  | here => rfl
  | below rest =>
    have hbody := names_append_slash [] rest
    rw [List.nil_append] at hbody
    rw [names_append_slash, hbody]
    rfl

theorem Led.filterMap_names {lead body : Text} (h : Led lead body) :
    (names lead).filterMap Component.ofName? = [] := by
  cases h <;> rfl

theorem exists_led (h : path.isAbsolute = false) :
    ∃ lead body, path = lead ++ body ∧ Led lead body ∧ path.parent? =
      match ((Text.splitOn '/' body).rdropWhile isIdle).reverse with
      | _ :: before => some (lead ++ Text.join ['/'] (before.reverse.rdropWhile isIdle))
      | [] => if lead = ['.'] then some [] else none := by
  have hdrop (pieces : List Text) :
      (pieces.rdropWhile isIdle).reverse = pieces.reverse.dropWhile isIdle := List.reverse_reverse _
  have hbefore (before : List Text) :
      before.reverse.rdropWhile isIdle = (before.dropWhile isIdle).reverse := by
    rw [List.rdropWhile, List.reverse_reverse]
  unfold parent?
  split
  rename_i lead body hlead
  have hled : path = lead ++ body ∧ Led lead body := by
    split at hlead
    · cases h
    all_goals
      obtain ⟨rfl, rfl⟩ := Prod.mk.inj hlead
      exact ⟨rfl, by constructor⟩
  refine ⟨lead, body, hled.1, hled.2, ?_⟩
  rw [hdrop]
  cases (Text.splitOn '/' body).reverse.dropWhile isIdle with
  | nil => rfl
  | cons piece before =>
    exact congrArg (fun pieces => some (lead ++ Text.join ['/'] pieces)) (hbefore before).symm

/-- Pieces of a text up to one that is not idle make a text that the same lead fits. -/
theorem Led.join {lead body : Text} (h : Led lead body) {pieces : List Text}
    (hpieces : pieces <+: Text.splitOn '/' body)
    (hlast : ∀ piece ∈ pieces.getLast?, isIdle piece = false) :
    Led lead (Text.join ['/'] pieces) := by
  cases h with
  | plain body => exact .plain _
  | here =>
    rcases List.prefix_cons_iff.mp hpieces with rfl | ⟨more, rfl, hmore⟩
    · exact .here
    · obtain rfl := List.prefix_nil.mp hmore
      cases hlast [] rfl
  | below rest =>
    rw [Text.splitOn_cons_mark] at hpieces
    rcases List.prefix_cons_iff.mp hpieces with rfl | ⟨more, rfl, -⟩
    · exact .here
    · cases more with
      | nil => cases hlast [] rfl
      | cons next more =>
        rw [Text.join_cons _ _ (List.cons_ne_nil next more)]
        exact .below _

theorem names_join_pieces {pieces : List Text} (h : ∀ piece ∈ pieces, '/' ∉ piece) :
    names (Text.join ['/'] pieces) = pieces.filter fun piece => !piece.isEmpty := by
  cases pieces with
  | nil => rfl
  | cons piece pieces => rw [names, Text.splitOn_join (List.cons_ne_nil piece pieces) h]

theorem Led.isAbsolute_join {lead body : Text} (h : Led lead body)
    (hbody : isAbsolute (lead ++ body) = false) {pieces : List Text}
    (hpieces : pieces <+: Text.splitOn '/' body)
    (hlast : ∀ piece ∈ pieces.getLast?, isIdle piece = false) :
    isAbsolute (lead ++ Text.join ['/'] pieces) = false := by
  cases h with
  | here => rfl
  | below rest => rfl
  | plain body =>
    rw [List.nil_append] at hbody ⊢
    by_cases hjoin : Text.join ['/'] pieces = []
    · rw [hjoin]
      rfl
    · have hne : pieces ≠ [] := by
        rintro rfl
        exact hjoin rfl
      have hslash : ∀ piece ∈ pieces, '/' ∉ piece :=
        fun piece hpiece => Text.not_mem_of_mem_splitOn (hpieces.subset hpiece)
      have hnil : body ≠ [] := by
        rintro rfl
        rcases List.prefix_cons_iff.mp hpieces with rfl | ⟨more, rfl, hmore⟩
        · exact hne rfl
        · obtain rfl := List.prefix_nil.mp hmore
          cases hlast [] rfl
      rw [isAbsolute_eq_false_iff hjoin, Text.splitOn_join hne hslash, head?_eq_of_begins hpieces hne]
      exact (isAbsolute_eq_false_iff hnil).mp hbody

/-- The last piece, if it is not idle, is the last step. -/
theorem getLast?_of_steps {pieces : List Text}
    (hlast : ∀ piece ∈ pieces.getLast?, isIdle piece = false)
    (h : (pieces.filter fun piece => !isIdle piece) = way.map Component.text) {c : Component}
    (hc : c ∈ way.getLast?) : pieces.getLast? = some c.text := by
  obtain ⟨front, rfl⟩ := List.getLast?_eq_some_iff.mp hc
  rcases List.eq_nil_or_concat' pieces with rfl | ⟨others, piece, rfl⟩
  · rw [List.map_append] at h
    exact absurd h.symm (List.concat_ne_nil _ _)
  · have hidle := hlast piece List.getLast?_concat
    rw [List.filter_append, List.filter_cons_of_pos (by rw [hidle]; rfl), List.filter_nil,
      List.map_append] at h
    rw [List.getLast?_concat, List.singleton_inj.mp (List.append_inj' h rfl).2]

/-- Pieces up to a step make a path that ends with this step. -/
theorem Led.ends_join {lead body : Text} (h : Led lead body)
    (hbody : isAbsolute (lead ++ body) = false) {pieces : List Text}
    (hpieces : pieces <+: Text.splitOn '/' body)
    (hlast : ∀ piece ∈ pieces.getLast?, isIdle piece = false) (hway : ∀ c ∈ way, IsStep c)
    (hsteps : (pieces.filter fun piece => !isIdle piece) = way.map Component.text) :
    Ends (lead ++ Text.join ['/'] pieces) way := by
  have hslash : ∀ piece ∈ pieces, '/' ∉ piece :=
    fun piece hpiece => Text.not_mem_of_mem_splitOn (hpieces.subset hpiece)
  have hnames : names (lead ++ Text.join ['/'] pieces) =
      names lead ++ pieces.filter fun piece => !piece.isEmpty := by
    rw [(h.join hpieces hlast).names_eq, names_join_pieces hslash]
  refine ⟨h.isAbsolute_join hbody hpieces hlast, ?_, fun c hc => ?_⟩
  · rw [steps, hnames, List.filterMap_append, h.filterMap_names, List.nil_append,
      filterMap_pieces hway hsteps]
  · have hstep := getLast?_of_steps hlast hsteps hc
    have hne : ¬c.text.isEmpty := by
      have hidle := hlast c.text hstep
      exact fun hc => by rw [isIdle, hc] at hidle; cases hidle
    rw [hnames, List.getLast?_append, getLast?_filter_of_last hstep (by simpa using hne), Option.some_or]

/-- The parent of a path takes all its steps but the last one. -/
theorem parent?_of_steps (hrelative : path.isAbsolute = false) (hsteps : path.steps = front ++ [last]) :
    ∃ parent, path.parent? = some parent ∧ Ends parent front ∧ parent <+: path := by
  have hfrontSteps : ∀ c ∈ front, IsStep c := fun c hc =>
    isStep_of_mem_steps (hsteps ▸ List.mem_append_left _ hc)
  obtain ⟨lead, body, rfl, hled, hparent⟩ := exists_led hrelative
  have hpieces : ((Text.splitOn '/' body).filter fun piece => !isIdle piece) =
      front.map Component.text ++ [last.text] := by
    rw [steps, hled.names_eq, List.filterMap_append, hled.filterMap_names, List.nil_append] at hsteps
    rw [← map_text_pieces, ← List.map_singleton, ← List.map_append, ← hsteps]
    rfl
  obtain ⟨kept, hkept, hfront, habove⟩ := exists_kept hpieces
  refine ⟨lead ++ Text.join ['/'] (kept.rdropWhile isIdle), ?_,
    hled.ends_join hrelative habove (not_idle_of_last kept) hfrontSteps hfront, ?_⟩
  · rw [hparent, hkept, List.reverse_append]
    show some (lead ++ Text.join ['/'] (kept.reverse.reverse.rdropWhile isIdle)) = _
    rw [List.reverse_reverse]
  · have hjoin := join_prefix ['/'] habove
    rw [Text.join_splitOn] at hjoin
    exact (List.prefix_append_right_inj lead).mpr hjoin

theorem Ends.parent? (h : Ends path (front ++ [last])) :
    ∃ parent, path.parent? = some parent ∧ Ends parent front ∧ parent <+: path :=
  parent?_of_steps h.relative h.steps_eq

end DocTools.Path
