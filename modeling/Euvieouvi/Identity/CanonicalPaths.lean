import Euvieouvi.Identity.NormalPaths

/-!
# Canonical paths

The mount roots that the settings form of `web/routes.py` accepts, and what `canonical_path` makes
of a path under them. A root is cut off without its slashes, so that the root `//` takes every path
that begins with one slash, and the canonical roots `/` and `C:` leave nothing to stand on for a
path that is the mapped root itself. `canonicalPath_sound_iff` says which paths and roots keep clear
of this and of what `normalize_path` misses: a drive letter that `..` takes away, and a last name
that ends in white space.
-/

namespace Euvieouvi

/-- `line.split("=>")`. -/
def splitArrow (part : List Char) : List Char → List (List Char)
  | [] => [part.reverse]
  | '=' :: '>' :: chars => part.reverse :: splitArrow [] chars
  | c :: chars => splitArrow (c :: part) chars

/-- The mappings that the lines of one source add, unless one of them is refused. -/
def readRoots (py : PyLib) : List PathRoot → List String → Option (List PathRoot)
  | mappings, [] => some mappings
  | mappings, line :: lines =>
    if py.strip line = "" then readRoots py mappings lines
    else
      match splitArrow [] line.toList with
      | [original, canonical] =>
        match normalizePath py (String.ofList original),
          normalizePath py (String.ofList canonical) with
        | some original, some canonical =>
          if original = "" ∨ canonical = "" then none
          else if mappings.any (·.source == original) then none
          else readRoots py (mappings ++ [⟨original, canonical⟩]) lines
        | _, _ => none
      | _ => none

/-- The roots of `settings_media_identity` for the lines of one source. -/
def acceptRoots (py : PyLib) (lines : List String) : Option (List PathRoot) := readRoots py [] lines

/-- Both sides of a mapping are texts that `posixpath.normpath` returns. -/
def NormalRoot (root : PathRoot) : Prop :=
  (∃ lead ns, NormalForm root.source.toList lead ns) ∧
    ∃ lead ns, NormalForm root.canonical.toList lead ns

section Form
variable {py : PyLib} {path normalized : String}

theorem normalForm_of_normalizePath (h : normalizePath py path = some normalized) :
    ∃ lead ns, NormalForm normalized.toList lead ns := by
  obtain ⟨-, -, -, rfl⟩ := normalizePath_eq_some h
  exact normalForm_posixNormpath _

theorem normal_readRoots {lines : List String} {mappings roots : List PathRoot}
    (h : readRoots py mappings lines = some roots)
    (hmappings : ∀ root ∈ mappings, NormalRoot root) : ∀ root ∈ roots, NormalRoot root := by
  induction lines generalizing mappings with
  | nil => exact Option.some.inj h ▸ hmappings
  | cons line lines ih =>
    rw [readRoots] at h
    split at h
    · exact ih h hmappings
    · split at h
      · split at h
        next horiginal hcanonical =>
          split at h
          · cases h
          · split at h
            · cases h
            · refine ih h fun root hroot => ?_
              rcases List.mem_append.1 hroot with hroot | hroot
              · exact hmappings root hroot
              · rw [List.mem_singleton.1 hroot]
                exact ⟨normalForm_of_normalizePath horiginal,
                  normalForm_of_normalizePath hcanonical⟩
        next => cases h
      · cases h

theorem normal_acceptRoots {lines : List String} {roots : List PathRoot}
    (h : acceptRoots py lines = some roots) :
    ∀ root ∈ roots, NormalRoot root :=
  normal_readRoots h fun _ hroot => absurd hroot List.not_mem_nil

end Form

/-- `normalized == source or normalized.startswith(source + "/")`, for the source without its last
slashes. -/
def liesBelow (normalized : String) (root : PathRoot) : Bool :=
  normalized.toList == rstripSlash root.source ||
    (rstripSlash root.source ++ ['/']).isPrefixOf normalized.toList

/-- The mapping that the loop of `canonical_path` returns from. -/
def appliedRoot (normalized : String) (roots : List PathRoot) : Option PathRoot :=
  (roots.insertionSort fun a b => b.source.length ≤ a.source.length).find? (liesBelow normalized)

/-- `normalized[len(source):]`. -/
def restBelow (root : PathRoot) (normalized : String) : List Char :=
  normalized.toList.drop (rstripSlash root.source).length

/-- What `canonical_path` returns for a path below a root. -/
def mappedPath (root : PathRoot) (normalized : String) : String :=
  posixNormpath (String.ofList (rstripSlash root.canonical ++ restBelow root normalized))

/-- The source is the path, or ends before a slash or with one. -/
def WholePrefix (source path : List Char) : Prop :=
  path = source ∨ source ++ ['/'] <+: path ∨ source.getLast? = some '/' ∧ source <+: path

section Applied
variable {py : PyLib} {path normalized : String} {roots : List PathRoot} {root : PathRoot}

theorem canonicalPath_eq :
    canonicalPath py path roots = (normalizePath py path).map fun normalized =>
    match appliedRoot normalized roots with
    | some root => mappedPath root normalized
    | none => normalized := rfl

theorem canonicalPath_applied (hn : normalizePath py path = some normalized)
    (hroot : appliedRoot normalized roots = some root) :
    canonicalPath py path roots = some (mappedPath root normalized) := by
  rw [canonicalPath_eq, hn, Option.map_some, hroot]

theorem canonicalPath_unmapped (hn : normalizePath py path = some normalized)
    (hroot : appliedRoot normalized roots = none) :
    canonicalPath py path roots = some normalized := by
  rw [canonicalPath_eq, hn, Option.map_some, hroot]

theorem liesBelow_iff : liesBelow normalized root = true ↔
    normalized.toList = rstripSlash root.source ∨
    rstripSlash root.source ++ ['/'] <+: normalized.toList := by
  unfold liesBelow
  rw [Bool.or_eq_true, beq_iff_eq, List.isPrefixOf_iff_prefix]

/-- The first root that fits, in the order of falling length. -/
theorem appliedRoot_some (h : appliedRoot normalized roots = some root) :
    root ∈ roots ∧ liesBelow normalized root = true ∧
    ∀ other ∈ roots, liesBelow normalized other = true →
    other.source.length ≤ root.source.length := by
  have htotal : Std.Total fun a b : PathRoot => b.source.length ≤ a.source.length :=
    ⟨fun a b => Nat.le_total _ _⟩
  have htrans : IsTrans PathRoot fun a b => b.source.length ≤ a.source.length :=
    ⟨fun a b c hab hbc => Nat.le_trans hbc hab⟩
  have hsorted :=
    List.pairwise_insertionSort (fun a b : PathRoot => b.source.length ≤ a.source.length) roots
  obtain ⟨hbelow, longer, shorter, hsplit, hlonger⟩ := List.find?_eq_some_iff_append.1 h
  have hmem : ∀ other, other ∈ roots ↔ other ∈ longer ++ root :: shorter := fun other => by
    rw [← hsplit, List.mem_insertionSort]
  refine ⟨(hmem root).2 (by simp), hbelow, fun other hother hfits => ?_⟩
  rw [hsplit, List.pairwise_append] at hsorted
  rcases List.mem_append.1 ((hmem other).1 hother) with hlong | hshort
  · have hnot := hlonger other hlong
    rw [hfits] at hnot
    cases hnot
  · rcases List.mem_cons.1 hshort with rfl | hshort
    · exact Nat.le_refl _
    · exact (List.pairwise_cons.1 hsorted.2.1).1 other hshort

theorem appliedRoot_none (h : appliedRoot normalized roots = none) :
    ∀ other ∈ roots, ¬ liesBelow normalized other = true :=
  fun other hother => List.find?_eq_none.1 h other ((List.mem_insertionSort _).2 hother)

theorem rstripSlash_named {text : String} {lead : Nat} {ns : List (List Char)}
    (h : NormalForm text.toList lead ns) (hne : ns ≠ []) :
    rstripSlash text = text.toList := by
  unfold rstripSlash
  have hlast := @getLast?_render _ '/' _ lead h.names hne
  rw [← h.text, List.getLast?_eq_head?_reverse] at hlast
  cases htext : text.toList.reverse with
  | nil => rw [List.dropWhile_nil, ← htext, List.reverse_reverse]
  | cons c rest =>
    rw [htext] at hlast
    rw [List.dropWhile_cons_of_neg, ← htext, List.reverse_reverse]
    exact fun hslash => hlast (congrArg some (beq_iff_eq.1 hslash))

theorem rstripSlash_bare {text : String} {lead : Nat} (h : NormalForm text.toList lead []) :
    rstripSlash text = [] := by
  unfold rstripSlash
  rw [h.text, render_nil, List.reverse_replicate]
  simp

/-- A path is the source without its slashes, and nothing or a slash. -/
theorem split_rest (h : liesBelow normalized root = true) :
    normalized.toList = rstripSlash root.source ++ restBelow root normalized ∧
    (restBelow root normalized = [] ∨ ∃ tail, restBelow root normalized = '/' :: tail) := by
  unfold restBelow
  rcases liesBelow_iff.1 h with h | ⟨tail, htail⟩
  · rw [h, List.drop_length]
    exact ⟨(List.append_nil _).symm, .inl rfl⟩
  · rw [← htail, List.append_assoc, List.drop_left]
    exact ⟨rfl, .inr ⟨tail, rfl⟩⟩

theorem liesBelow_of_wholePrefix {lead : Nat} {as : List (List Char)}
    (h : NormalForm root.source.toList lead as)
    (hstart : WholePrefix root.source.toList normalized.toList) :
    liesBelow normalized root = true := by
  rw [liesBelow_iff]
  by_cases hnamed : as = []
  · subst hnamed
    have hlead : lead ≠ 0 := fun hzero => h.named hzero rfl
    have hslash : ['/'] <+: root.source.toList := by
      obtain ⟨lead, rfl⟩ := Nat.exists_eq_succ_of_ne_zero hlead
      rw [h.text, render_nil, List.replicate_succ]
      exact List.prefix_append ['/'] _
    rw [rstripSlash_bare h]
    rcases hstart with heq | hstart | ⟨-, hstart⟩
    · exact .inr (heq ▸ hslash)
    · exact .inr (hslash.trans ((List.prefix_append _ _).trans hstart))
    · exact .inr (hslash.trans hstart)
  · rw [rstripSlash_named h hnamed]
    refine hstart.imp_right fun hstart => hstart.resolve_right fun ⟨hlast, _⟩ => ?_
    rw [h.text] at hlast
    exact getLast?_render h.names hnamed hlast

/-- A root that is applied is a prefix, apart from the root `//`. -/
theorem wholePrefix_of_liesBelow {lead : Nat} {as : List (List Char)}
    (h : NormalForm root.source.toList lead as)
    (hne : normalized.toList ≠ []) (hbelow : liesBelow normalized root = true)
    (hdouble : root.source = "//" → ['/', '/'] <+: normalized.toList) :
    WholePrefix root.source.toList normalized.toList := by
  rw [liesBelow_iff] at hbelow
  by_cases hnamed : as = []
  · subst hnamed
    rw [rstripSlash_bare h] at hbelow
    have hslash : ['/'] <+: normalized.toList := hbelow.resolve_left hne
    have hlead : lead ≠ 0 := fun hzero => h.named hzero rfl
    have hle := h.lead_le
    obtain rfl | rfl : lead = 1 ∨ lead = 2 := by omega
    · exact .inr (.inr ⟨by rw [h.text]; rfl, by rw [h.text]; exact hslash⟩)
    · have hsource : root.source = "//" := String.toList_injective h.text
      exact .inr (.inr ⟨by rw [h.text]; rfl, by rw [h.text]; exact hdouble hsource⟩)
  · rw [rstripSlash_named h hnamed] at hbelow
    exact hbelow.imp_right .inl

/-- The root that is applied is the longest that is a prefix of whole components. -/
def LongestApplied (normalized : String) (roots : List PathRoot) : Prop :=
  match appliedRoot normalized roots with
  | none => ∀ root ∈ roots, ¬ WholePrefix root.source.toList normalized.toList
  | some root => WholePrefix root.source.toList normalized.toList ∧
      ∀ other ∈ roots, WholePrefix other.source.toList normalized.toList →
        other.source.length ≤ root.source.length

theorem longestApplied_iff (hroots : ∀ root ∈ roots, NormalRoot root)
    (hne : normalized.toList ≠ []) :
    LongestApplied normalized roots ↔
      ∀ root, appliedRoot normalized roots = some root → root.source = "//" →
      ['/', '/'] <+: normalized.toList := by
  have hstart : ∀ root ∈ roots, WholePrefix root.source.toList normalized.toList →
      liesBelow normalized root = true :=
    fun root hroot hstart => by
      obtain ⟨⟨lead, as, hform⟩, -⟩ := hroots root hroot
      exact liesBelow_of_wholePrefix hform hstart
  unfold LongestApplied
  cases happlied : appliedRoot normalized roots with
  | none =>
    refine iff_of_true (fun root hroot h =>
      appliedRoot_none happlied root hroot (hstart root hroot h)) fun root h => ?_
    cases h
  | some root =>
    obtain ⟨hmem, hbelow, hlongest⟩ := appliedRoot_some happlied
    constructor
    · rintro ⟨hwhole, -⟩ _ ⟨⟩ hsource
      rw [hsource] at hwhole
      rcases hwhole with heq | hwhole | ⟨-, hwhole⟩
      · exact heq ▸ List.prefix_refl _
      · exact (List.prefix_append _ _).trans hwhole
      · exact hwhole
    · intro hdouble
      obtain ⟨⟨lead, as, hform⟩, -⟩ := hroots root hmem
      exact ⟨wholePrefix_of_liesBelow hform hne hbelow (hdouble root rfl), fun other hother h =>
        hlongest other hother (hstart other hother h)⟩

end Applied

/-! ### The mapped path -/

/-- There is something for the path to stand on: a canonical root with a name below a slash or a
drive letter, or a bare one and a rest. -/
def CanonicalFits (canonical : String) (rest : List Char) : Prop :=
  (WellFormedPath canonical.toList ∧ pathNames '/' canonical.toList ≠ []) ∨
    (canonical = "/" ∧ rest ≠ []) ∨
    (canonical = "//" ∧ leadSlashes rest = 2) ∨ (IsDrive canonical.toList ∧ pathNames '/' rest ≠ [])

section Mapped
variable {normalized : String} {root : PathRoot} {lead : Nat} {ns : List (List Char)}
  {rest : List Char} {canonical : String}

theorem hasDriveLetter_of_prefix {chars text : List Char} (h : hasDriveLetter chars = true)
    (hstart : chars <+: text) :
    hasDriveLetter text = true := by
  obtain ⟨drive, tail, hdrive, rfl⟩ := exists_drive h
  obtain ⟨more, rfl⟩ := hstart
  rw [List.append_assoc, List.cons_append]
  exact hasDriveLetter_append hdrive _

theorem pathNames_append_rest {text : List Char} (hrest : rest = [] ∨ ∃ tail, rest = '/' :: tail) :
    pathNames '/' (text ++ rest) = pathNames '/' text ++ pathNames '/' rest := by
  obtain rfl | ⟨tail, rfl⟩ := hrest
  · rw [List.append_nil, pathNames_nil, List.append_nil]
  · rw [pathNames_append_sep, pathNames_sep]

theorem pathNames_rstripSlash (h : NormalForm canonical.toList lead ns) :
    pathNames '/' (rstripSlash canonical) = ns := by
  by_cases hne : ns = []
  · subst hne
    rw [rstripSlash_bare h, pathNames_nil]
  · rw [rstripSlash_named h hne, h.text, pathNames_render h.names]

theorem leadSlashes_append_rest (h : NormalForm canonical.toList lead ns) (hne : ns ≠ []) :
    leadSlashes (rstripSlash canonical ++ rest) = lead := by
  obtain ⟨n, ns, rfl⟩ := List.exists_cons_of_ne_nil hne
  rw [rstripSlash_named h hne, h.text, render_cons, List.append_assoc _ (below '/' ns)]
  exact leadSlashes_name (h.names n List.mem_cons_self) h.lead_le

theorem NormalForm.pathNames_eq (h : NormalForm canonical.toList lead ns) :
    pathNames '/' canonical.toList = ns := by
  rw [h.text, pathNames_render h.names]

theorem NormalForm.leadSlashes_eq (h : NormalForm canonical.toList lead ns) :
    leadSlashes canonical.toList = lead := by
  rw [h.text, leadSlashes_render h.names h.lead_le]

theorem fits_cases (h : NormalForm canonical.toList lead ns)
    (hfits : CanonicalFits canonical rest) :
    (ns ≠ [] ∧ WellFormedPath canonical.toList) ∨ (ns = [] ∧ lead = 1 ∧ rest ≠ []) ∨
      (ns = [] ∧ lead = 2 ∧ leadSlashes rest = 2) ∨
        (ns = [canonical.toList] ∧ lead = 0 ∧ IsDrive canonical.toList ∧
          pathNames '/' rest ≠ []) := by
  have hnames := h.pathNames_eq
  have hlead := h.leadSlashes_eq
  rcases hfits with ⟨hwell, hnamed⟩ | ⟨rfl, hrest⟩ | ⟨rfl, hrest⟩ | ⟨hdrive, hrest⟩
  · exact .inl ⟨hnames ▸ hnamed, hwell⟩
  · have hnone : pathNames '/' "/".toList = [] := (pathNames_sep []).trans pathNames_nil
    exact .inr (.inl ⟨hnames.symm.trans hnone, hlead.symm, hrest⟩)
  · have hnone : pathNames '/' "//".toList = [] :=
      (pathNames_sep ['/']).trans ((pathNames_sep []).trans pathNames_nil)
    exact .inr (.inr (.inl ⟨hnames.symm.trans hnone, hlead.symm, hrest⟩))
  · have hname := (proper_of_isDrive hdrive).1
    have hzero : leadSlashes canonical.toList = 0 := by
      have h := @leadSlashes_name canonical.toList 0 [] hname (Nat.zero_le 2)
      rwa [List.append_nil] at h
    exact .inr (.inr
      (.inr ⟨hnames.symm.trans (pathNames_of_isName hname), hlead.symm.trans hzero, hdrive, hrest⟩))

theorem proper_of_wellFormed {chars : List Char} (h : WellFormedPath chars) :
    ∀ n ∈ pathNames '/' chars, Proper n := by
  obtain ⟨lead, ms, hms, rfl, -⟩ := h
  rw [pathNames_render fun n hn => (hms n hn).1]
  exact hms

/-- What a path is mapped to: the names of the canonical root and those of the rest. -/
theorem toList_mapped (h : NormalForm canonical.toList lead ns)
    (hrest : rest = [] ∨ ∃ tail, rest = '/' :: tail)
    (hproper : ∀ n ∈ pathNames '/' rest, Proper n) (hfits : CanonicalFits canonical rest) :
    (posixNormpath (String.ofList (rstripSlash canonical ++ rest))).toList =
      render '/' (if ns = [] then leadSlashes rest else lead) (ns ++ pathNames '/' rest) := by
  have hcases := fits_cases h hfits
  have hnames : pathNames '/' (rstripSlash canonical ++ rest) = ns ++ pathNames '/' rest := by
    rw [pathNames_append_rest hrest, pathNames_rstripSlash h]
  have hlead : leadSlashes (rstripSlash canonical ++ rest) = if ns =
      [] then leadSlashes rest else lead := by
    split
    next hnil =>
      subst hnil
      rw [rstripSlash_bare h, List.nil_append]
    next hne => exact leadSlashes_append_rest h hne
  rw [← hnames, ← hlead]
  refine toList_posixNormpath_proper (fun n hn => ?_) ?_
  · rw [hnames] at hn
    refine (List.mem_append.1 hn).elim (fun hn => ?_) (hproper n)
    rcases hcases with ⟨-, hwell⟩ | ⟨rfl, -⟩ | ⟨rfl, -⟩ | ⟨rfl, -, hdrive, -⟩
    · exact proper_of_wellFormed hwell n (h.pathNames_eq.symm ▸ hn)
    · cases hn
    · cases hn
    · exact List.mem_singleton.1 hn ▸ proper_of_isDrive hdrive
  · rw [hnames, hlead]
    by_cases hne : ns = []
    · rw [if_pos hne]
      refine .inl fun hzero => ?_
      rcases hcases with ⟨hnamed, -⟩ | ⟨-, -, hrest'⟩ | ⟨-, -, htwo⟩ | ⟨hnamed, -⟩
      · exact hnamed hne
      · obtain ⟨tail, rfl⟩ := hrest.resolve_left hrest'
        rcases leadSlashes_slash (show ['/'].isPrefixOf ('/' :: tail) = true by simp) with h | h <;>
          rw [hzero] at h <;> cases h
      · rw [hzero] at htwo
        cases htwo
      · rw [hne] at hnamed
        cases hnamed
    · exact .inr fun hnil => hne (List.append_eq_nil_iff.1 hnil).1

/-- A mapped path is well formed and under the canonical root. -/
theorem mapped_of_fits (h : NormalForm canonical.toList lead ns)
    (hrest : rest = [] ∨ ∃ tail, rest = '/' :: tail)
    (hproper : ∀ n ∈ pathNames '/' rest, Proper n) (hfits : CanonicalFits canonical rest) :
    WellFormedPath (posixNormpath (String.ofList (rstripSlash canonical ++ rest))).toList ∧
      WholePrefix canonical.toList
        (posixNormpath (String.ofList (rstripSlash canonical ++ rest))).toList := by
  have htext := toList_mapped h hrest hproper hfits
  obtain ⟨lead', ms, hform⟩ :=
    normalForm_posixNormpath (String.ofList (rstripSlash canonical ++ rest))
  generalize (posixNormpath (String.ofList (rstripSlash canonical ++ rest))).toList =
    chars at htext hform
  have hslash : ∀ {k : Nat} {names : List (List Char)}, k = 1 ∨ k = 2 →
      ['/'] <+: render '/' k names := by
    rintro k names (rfl | rfl)
    exacts [⟨_, rfl⟩, ⟨_, rfl⟩]
  have hnonempty : ∀ {names : List (List Char)}, names ≠ [] →
      ∃ tail, below '/' names = '/' :: tail := by
    intro names hne
    obtain ⟨n, names, rfl⟩ := List.exists_cons_of_ne_nil hne
    exact ⟨_, below_cons⟩
  rcases fits_cases h hfits with ⟨hnamed, hwell⟩ | ⟨rfl, rfl, hrest'⟩ | ⟨rfl, rfl, htwo⟩ | ⟨hname,
    rfl, hdrive, hrest'⟩
  · rw [if_neg hnamed, render_append hnamed, ← h.text] at htext
    refine ⟨hform.wellFormed ?_, ?_⟩
    · rw [htext]
      refine (rooted_of_wellFormed hwell).imp (fun hslash => ?_) fun hdrive =>
        hasDriveLetter_of_prefix hdrive (List.prefix_append _ _)
      exact List.isPrefixOf_iff_prefix.2
        ((List.isPrefixOf_iff_prefix.1 hslash).trans (List.prefix_append _ _))
    · rw [htext]
      by_cases hnil : pathNames '/' rest = []
      · rw [hnil]
        exact .inl (List.append_nil _)
      · obtain ⟨tail, htail⟩ := hnonempty hnil
        exact .inr (.inl ⟨tail, by rw [htail, List.append_assoc]; rfl⟩)
  · rw [if_pos rfl] at htext
    obtain ⟨tail, rfl⟩ := hrest.resolve_left hrest'
    have hstart : ['/'] <+: chars := htext ▸ hslash (leadSlashes_slash (by simp))
    exact ⟨hform.wellFormed (.inl (List.isPrefixOf_iff_prefix.2 hstart)),
      .inr (.inr ⟨by rw [h.text]; rfl, by rw [h.text]; exact hstart⟩)⟩
  · rw [if_pos rfl, htwo] at htext
    have hstart : ['/'] <+: chars := htext ▸ hslash (.inr rfl)
    refine ⟨hform.wellFormed (.inl (List.isPrefixOf_iff_prefix.2 hstart)),
      .inr (.inr ⟨by rw [h.text]; rfl, ?_⟩)⟩
    rw [h.text, htext]
    exact ⟨_, rfl⟩
  · obtain ⟨tail, htail⟩ := hnonempty hrest'
    rw [hname, if_neg (List.cons_ne_nil _ _), List.singleton_append, render_cons, htail] at htext
    refine ⟨hform.wellFormed (.inr ?_), .inr (.inl ⟨tail, ?_⟩)⟩
    · rw [htext]
      exact hasDriveLetter_append hdrive tail
    · rw [htext, List.append_assoc]
      rfl

theorem lead_of_doubled {names : List (List Char)} {k : Nat} (hnames : ∀ n ∈ names, IsName '/' n)
    (h : ['/', '/'] <+: render '/' k names) : 2 ≤ k := by
  match k with
  | 0 =>
    exact absurd rfl (lead_of_slash hnames
      (List.isPrefixOf_iff_prefix.2 ((List.prefix_append ['/'] ['/']).trans h)))
  | 1 =>
    obtain ⟨tail, htail⟩ := h
    have hzero : ['/'].isPrefixOf (render '/' 0 names) = true := by
      have htext : '/' :: tail = render '/' 0 names := (List.cons.inj htail).2
      rw [← htext]
      simp
    exact absurd rfl (lead_of_slash hnames hzero)
  | k + 2 => exact Nat.le_add_left 2 k

/-- What has no slash in front and a rooted path under it begins with a drive letter. -/
theorem drive_of_under {chars first text : List Char} {others ms : List (List Char)}
    (h : NormalForm text 0 (first :: others))
    (hform : NormalForm chars lead ms) (hrooted : Rooted chars) (hunder : WholePrefix text chars) :
    IsDrive first ∧ ∃ more, more ≠ [] ∧ ms = first :: more := by
  have htext := @pathNames_render _ '/' _ 0 _ h.names
  have hchars := @pathNames_render _ '/' _ lead _ hform.names
  rw [← h.text] at htext
  rw [← hform.text] at hchars
  have hstart : text <+: chars := by
    rcases hunder with heq | hunder | ⟨-, hunder⟩
    exacts [heq ▸ List.prefix_refl _, (List.prefix_append _ _).trans hunder, hunder]
  have hdrive : hasDriveLetter chars = true := by
    refine hrooted.resolve_left fun hslash => ?_
    refine lead_of_slash h.names ?_ rfl
    rw [← h.text]
    obtain ⟨tail, rfl⟩ := hstart
    cases text with
    | nil => exact absurd h.text.symm (render_ne_nil h.names (.inr (List.cons_ne_nil _ _)))
    | cons c text => simpa using hslash
  obtain ⟨-, drive, more, hisDrive, rfl, hmore⟩ := hform.head_of_drive hdrive
  have hfirst : first = drive := by
    rcases hunder with heq | ⟨tail, htail⟩ | ⟨hlast, -⟩
    · rw [heq, htext] at hchars
      exact (List.cons.inj hchars).1
    · rw [← htail, List.append_assoc, List.singleton_append, pathNames_append_sep, htext] at hchars
      exact (List.cons.inj hchars).1
    · rw [h.text] at hlast
      exact absurd hlast (getLast?_render h.names (List.cons_ne_nil _ _))
  subst hfirst
  exact ⟨hisDrive, more, hmore, rfl⟩

/-- A path under slashes needs something that is left of it, and under two slashes two. -/
theorem fits_of_bare (h : NormalForm canonical.toList lead [])
    (hwell : WellFormedPath (posixNormpath (String.ofList rest)).toList)
    (hunder : WholePrefix canonical.toList (posixNormpath (String.ofList rest)).toList) :
    CanonicalFits canonical rest := by
  have hle := h.lead_le
  have hne : rest ≠ [] := by
    rintro rfl
    exact absurd (rooted_of_wellFormed hwell) (not_or.2 ⟨by decide +kernel, by decide +kernel⟩)
  have hlead : lead ≠ 0 := fun hzero => h.named hzero rfl
  obtain rfl | rfl : lead = 1 ∨ lead = 2 := by omega
  · exact .inr (.inl ⟨String.toList_injective h.text, hne⟩)
  · refine .inr (.inr (.inl ⟨String.toList_injective h.text, ?_⟩))
    have hdouble : ['/', '/'] <+: (posixNormpath (String.ofList rest)).toList := by
      rw [h.text] at hunder
      rcases hunder with heq | hunder | ⟨-, hunder⟩
      · exact heq ▸ List.prefix_refl _
      · exact (List.prefix_append ['/', '/'] ['/']).trans hunder
      · exact hunder
    rw [posixNormpath_eq, String.toList_ofList] at hdouble
    dsimp only at hdouble
    split at hdouble
    · exact absurd hdouble (by decide)
    · rw [String.toList_ofList] at hdouble
      have htwo := lead_of_doubled (fun n hn => isName_of_mem (mem_normComponents hn)) hdouble
      exact Nat.le_antisymm (leadSlashes_le rest) htwo

/-- A path under a canonical root without a slash in front is under a drive letter. -/
theorem fits_of_drive {n : List Char} (h : NormalForm canonical.toList 0 (n :: ns))
    (hrest : rest = [] ∨ ∃ tail, rest = '/' :: tail)
    (hwell : WellFormedPath (posixNormpath (String.ofList (rstripSlash canonical ++ rest))).toList)
    (hunder : WholePrefix canonical.toList
      (posixNormpath (String.ofList (rstripSlash canonical ++ rest))).toList) :
    CanonicalFits canonical rest := by
  have hnames := (@pathNames_append_rest rest (rstripSlash canonical) hrest).trans
    (congrArg (· ++ pathNames '/' rest) (pathNames_rstripSlash h))
  obtain ⟨lead', ms, hform⟩ :=
    normalForm_posixNormpath (String.ofList (rstripSlash canonical ++ rest))
  obtain ⟨hisDrive, more, hmore, rfl⟩ := drive_of_under h hform (rooted_of_wellFormed hwell) hunder
  by_cases hns : ns = []
  · subst hns
    have htext : canonical.toList = n := by
      rw [h.text, render_cons, below_nil, List.append_nil]
      rfl
    refine .inr (.inr (.inr ⟨htext ▸ hisDrive, fun hnil => hmore ?_⟩))
    rw [hnil, List.append_nil] at hnames
    have hresult := @toList_posixNormpath_proper (rstripSlash canonical ++ rest)
      (fun m hm => by rw [hnames] at hm; exact List.mem_singleton.1 hm ▸ proper_of_isDrive hisDrive)
      (.inr (by rw [hnames]; exact List.cons_ne_nil _ _))
    have hms := congrArg (pathNames '/') (hform.text.symm.trans hresult)
    rw [pathNames_render hform.names, hnames, pathNames_render h.names] at hms
    exact (List.cons.inj hms).2
  · obtain ⟨m, ns, rfl⟩ := List.exists_cons_of_ne_nil hns
    refine .inl ⟨h.wellFormed (.inr ?_), by rw [h.pathNames_eq]; exact List.cons_ne_nil _ _⟩
    rw [h.text, render_cons, below_cons]
    exact hasDriveLetter_append hisDrive _

/-- A well-formed path is under no other canonical root. -/
theorem fits_of_mapped (h : NormalForm canonical.toList lead ns)
    (hrest : rest = [] ∨ ∃ tail, rest = '/' :: tail)
    (hwell : WellFormedPath (posixNormpath (String.ofList (rstripSlash canonical ++ rest))).toList)
    (hunder : WholePrefix canonical.toList
      (posixNormpath (String.ofList (rstripSlash canonical ++ rest))).toList) :
    CanonicalFits canonical rest := by
  by_cases hnamed : ns = []
  · subst hnamed
    rw [rstripSlash_bare h, List.nil_append] at hwell hunder
    exact fits_of_bare h hwell hunder
  · by_cases hlead : lead = 0
    · obtain ⟨n, ns, rfl⟩ := List.exists_cons_of_ne_nil hnamed
      subst hlead
      exact fits_of_drive h hrest hwell hunder
    · have hslash : ['/'].isPrefixOf canonical.toList = true := by
        obtain ⟨lead, rfl⟩ := Nat.exists_eq_succ_of_ne_zero hlead
        rw [h.text, render, List.replicate_succ, List.cons_append]
        simp
      exact .inl ⟨h.wellFormed (.inl hslash), by rw [h.pathNames_eq]; exact hnamed⟩

end Mapped

/-! ### Sound paths -/

section Sound
variable (py : PyLib) (roots : List PathRoot) (path other : String)

/-- What `canonical_path` and `normalize_path` promise about one path. -/
structure SoundPath : Prop where
  wellFormed : ∀ canonical, canonicalPath py path roots = some canonical →
    WellFormedPath canonical.toList
  idempotent : ∀ normalized, normalizePath py path = some normalized →
    normalizePath py normalized = some normalized
  longest : ∀ normalized, normalizePath py path = some normalized → LongestApplied normalized roots
  under : ∀ normalized root canonical, normalizePath py path = some normalized →
    appliedRoot normalized roots = some root →
    canonicalPath py path roots = some canonical →
      WholePrefix root.canonical.toList canonical.toList

/-- Two paths below one root that normalize differently stay different. -/
def KeptApart : Prop :=
  ∀ normalized normalized' root, normalizePath py path = some normalized →
    normalizePath py other = some normalized' →
    appliedRoot normalized roots = some root → appliedRoot normalized' roots = some root →
      normalized ≠ normalized' →
      canonicalPath py path roots ≠ canonicalPath py other roots

/-- A path that is not refused is anchored, its last name does not end in white space, and the root
that is applied fits it. -/
structure MappablePath : Prop where
  anchored : normalizePath py path ≠ none → Anchored py path
  unspaced : normalizePath py path ≠ none → ¬ Spaced py path
  single : ∀ normalized root, normalizePath py path = some normalized →
    appliedRoot normalized roots = some root →
    root.source = "//" → ['/', '/'] <+: normalized.toList
  fits : ∀ normalized root, normalizePath py path = some normalized →
    appliedRoot normalized roots = some root →
    CanonicalFits root.canonical (restBelow root normalized)

/-- A root of slashes and a canonical root with a name are not applied to one path written with one
and with two slashes in front. -/
def Unblurred : Prop :=
  ∀ normalized normalized' root, normalizePath py path = some normalized →
    normalizePath py other = some normalized' →
    appliedRoot normalized roots = some root → appliedRoot normalized' roots = some root →
      rstripSlash root.source = [] →
      pathNames '/' root.canonical.toList ≠ [] →
        normalized.toList ≠ '/' :: normalized'.toList ∧
          normalized'.toList ≠ '/' :: normalized.toList

variable {py roots path other}

theorem proper_rest {normalized : String} {root : PathRoot}
    (hwell : WellFormedPath normalized.toList)
    (hbelow : liesBelow normalized root = true) :
    ∀ n ∈ pathNames '/' (restBelow root normalized), Proper n := by
  obtain ⟨hsplit, hrest⟩ := split_rest hbelow
  intro n hn
  refine proper_of_wellFormed hwell n ?_
  rw [hsplit, pathNames_append_rest hrest]
  exact List.mem_append_right _ hn

theorem ne_nil_of_wellFormed {chars : List Char} (h : WellFormedPath chars) : chars ≠ [] := by
  rintro rfl
  exact absurd (rooted_of_wellFormed h) (not_or.2 ⟨by decide, by decide⟩)

theorem soundPath_iff (hspaces : SpacesApart py) (hroots : ∀ root ∈ roots, NormalRoot root) :
    SoundPath py roots path ↔ MappablePath py roots path := by
  cases hn : normalizePath py path with
  | none =>
    have hnone : canonicalPath py path roots = none := by rw [canonicalPath_eq, hn, Option.map_none]
    refine iff_of_true ⟨fun _ h => ?_, fun _ h => ?_, fun _ h => ?_, fun _ _ _ h => ?_⟩
      ⟨fun h => absurd hn h, fun h => absurd hn h, fun _ _ h => ?_, fun _ _ h => ?_⟩
    · rw [hnone] at h; cases h
    all_goals rw [hn] at h; cases h
  | some normalized =>
    have hlongest := @longestApplied_iff normalized roots hroots
    constructor
    · intro h
      obtain ⟨hwell, hlast⟩ :=
        (normalizePath_idempotent_iff hspaces hn).1 (h.idempotent normalized hn)
      refine ⟨fun _ => (wellFormed_iff_anchored hn).1 hwell, fun _ hspaced =>
        hlast ((endsInSpace_iff_spaced hspaces hn hwell).2 hspaced),
        fun normalized' root hn' happlied => ?_, fun normalized' root hn' happlied => ?_⟩
      · obtain rfl := Option.some.inj (hn.symm.trans hn')
        exact (hlongest (ne_nil_of_wellFormed hwell)).1 (h.longest normalized hn) root happlied
      · obtain rfl := Option.some.inj (hn.symm.trans hn')
        obtain ⟨hmem, hbelow, -⟩ := appliedRoot_some happlied
        obtain ⟨-, lead, ns, hform⟩ := hroots root hmem
        have hcanonical := canonicalPath_applied hn happlied
        exact fits_of_mapped hform (split_rest hbelow).2 (h.wellFormed _ hcanonical)
          (h.under _ root _ hn happlied hcanonical)
    · intro h
      have hsome : normalizePath py path ≠ none := by rw [hn]; exact Option.some_ne_none _
      have hwell := (wellFormed_iff_anchored hn).2 (h.anchored hsome)
      have hlast : ¬ EndsInSpace py normalized := fun hspace =>
        h.unspaced hsome ((endsInSpace_iff_spaced hspaces hn hwell).1 hspace)
      have hmapped : ∀ root, appliedRoot normalized roots = some root →
          WellFormedPath (mappedPath root normalized).toList ∧
          WholePrefix root.canonical.toList (mappedPath root normalized).toList :=
            fun root happlied => by
        obtain ⟨hmem, hbelow, -⟩ := appliedRoot_some happlied
        obtain ⟨-, lead, ns, hform⟩ := hroots root hmem
        exact mapped_of_fits hform (split_rest hbelow).2 (proper_rest hwell hbelow)
          (h.fits normalized root hn happlied)
      refine ⟨fun canonical hcanonical => ?_, fun normalized' hn' => ?_, fun normalized' hn' => ?_,
        fun normalized' root canonical hn' happlied hcanonical => ?_⟩
      · cases happlied : appliedRoot normalized roots with
        | none =>
          rw [canonicalPath_unmapped hn happlied] at hcanonical
          exact Option.some.inj hcanonical ▸ hwell
        | some root =>
          rw [canonicalPath_applied hn happlied] at hcanonical
          exact Option.some.inj hcanonical ▸ (hmapped root happlied).1
      · obtain rfl := Option.some.inj (hn.symm.trans hn')
        exact (normalizePath_idempotent_iff hspaces hn).2 ⟨hwell, hlast⟩
      · obtain rfl := Option.some.inj (hn.symm.trans hn')
        exact (hlongest (ne_nil_of_wellFormed hwell)).2 fun root happlied =>
          h.single normalized root hn happlied
      · obtain rfl := Option.some.inj (hn.symm.trans hn')
        rw [canonicalPath_applied hn happlied] at hcanonical
        exact Option.some.inj hcanonical ▸ (hmapped root happlied).2

/-- The names of a path below a root are those of the rest after those of the canonical root. -/
theorem toList_mappedPath {normalized : String} {root : PathRoot} {lead : Nat}
    {ns : List (List Char)}
    (hform : NormalForm root.canonical.toList lead ns) (hwell : WellFormedPath normalized.toList)
    (hbelow : liesBelow normalized root = true)
    (hfits : CanonicalFits root.canonical (restBelow root normalized)) :
    (mappedPath root normalized).toList =
      render '/' (if ns = [] then leadSlashes (restBelow root normalized) else lead)
      (ns ++ pathNames '/' (restBelow root normalized)) ∧
      pathNames '/' (mappedPath root normalized).toList =
        ns ++ pathNames '/' (restBelow root normalized) := by
  have hproper := proper_rest hwell hbelow
  have htext := toList_mapped hform (split_rest hbelow).2 hproper hfits
  refine ⟨htext, ?_⟩
  rw [mappedPath, htext, pathNames_render]
  exact fun n hn => (List.mem_append.1 hn).elim (hform.names n) fun hn => (hproper n hn).1

/-- A well-formed path is its names after the slashes that are kept. -/
theorem render_of_wellFormed {chars : List Char} (h : WellFormedPath chars) :
    chars = render '/' (leadSlashes chars) (pathNames '/' chars) := by
  obtain ⟨lead, ns, hns, hchars, hlead⟩ := h
  have hnames : ∀ n ∈ ns, IsName '/' n := fun n hn => (hns n hn).1
  have hle : lead ≤ 2 := by omega
  have hslashes : leadSlashes chars = lead := hchars ▸ leadSlashes_render hnames hle
  have hpathNames : pathNames '/' chars = ns := hchars ▸ pathNames_render hnames
  rw [hslashes, hpathNames]
  exact hchars

theorem eq_of_wellFormed {normalized normalized' : String} (h : WellFormedPath normalized.toList)
    (h' : WellFormedPath normalized'.toList)
    (hlead : leadSlashes normalized.toList = leadSlashes normalized'.toList)
    (hnames : pathNames '/' normalized.toList = pathNames '/' normalized'.toList) :
    normalized = normalized' := by
  refine String.toList_injective ?_
  rw [render_of_wellFormed h, render_of_wellFormed h', hlead, hnames]

/-- Two paths below a root are mapped to one path if they have the same names, and the same slashes
where they are kept. -/
theorem mappedPath_eq_iff {normalized normalized' : String} {root : PathRoot} {lead : Nat}
    {ns : List (List Char)}
    (hform : NormalForm root.canonical.toList lead ns) (hwell : WellFormedPath normalized.toList)
    (hwell' : WellFormedPath normalized'.toList) (hbelow : liesBelow normalized root = true)
    (hbelow' : liesBelow normalized' root = true)
    (hfits : CanonicalFits root.canonical (restBelow root normalized))
    (hfits' : CanonicalFits root.canonical (restBelow root normalized')) :
    mappedPath root normalized = mappedPath root normalized' ↔
      pathNames '/' normalized.toList = pathNames '/' normalized'.toList ∧
        (ns = [] →
          leadSlashes (restBelow root normalized) = leadSlashes (restBelow root normalized')) := by
  obtain ⟨htext, hnames⟩ := toList_mappedPath hform hwell hbelow hfits
  obtain ⟨htext', hnames'⟩ := toList_mappedPath hform hwell' hbelow' hfits'
  obtain ⟨hsplit, hrest⟩ := split_rest hbelow
  obtain ⟨hsplit', hrest'⟩ := split_rest hbelow'
  have hsource := (congrArg (pathNames '/') hsplit).trans (pathNames_append_rest hrest)
  have hsource' := (congrArg (pathNames '/') hsplit').trans (pathNames_append_rest hrest')
  rw [hsource, hsource', List.append_cancel_left_eq]
  constructor
  · intro heq
    have hsame := congrArg (fun text : String => pathNames '/' text.toList) heq
    rw [hnames, hnames', List.append_cancel_left_eq] at hsame
    refine ⟨hsame, fun hnil => ?_⟩
    have hlead := congrArg (fun text : String => text.toList.length) heq
    rw [htext, htext', hsame, if_pos hnil, if_pos hnil, render, render, List.length_append,
      List.length_append,
      List.length_replicate, List.length_replicate] at hlead
    exact Nat.add_right_cancel hlead
  · rintro ⟨hsame, hlead⟩
    refine String.toList_injective ?_
    rw [htext, htext', hsame]
    split
    next hnil => rw [hlead hnil]
    next => rfl

/-- Two paths with the same names differ in one slash. -/
theorem slash_apart {normalized normalized' : String} (hwell : WellFormedPath normalized.toList)
    (hwell' : WellFormedPath normalized'.toList)
    (hslashes : leadSlashes normalized.toList = 1 ∨ leadSlashes normalized.toList = 2)
    (hslashes' : leadSlashes normalized'.toList = 1 ∨ leadSlashes normalized'.toList = 2)
    (hnames : pathNames '/' normalized.toList = pathNames '/' normalized'.toList)
    (hapart : leadSlashes normalized.toList ≠ leadSlashes normalized'.toList) :
    normalized.toList = '/' :: normalized'.toList ∨
    normalized'.toList = '/' :: normalized.toList := by
  have htext := render_of_wellFormed hwell
  have htext' := render_of_wellFormed hwell'
  rw [← hnames] at htext'
  rcases hslashes with hone | htwo <;> rcases hslashes' with hone' | htwo'
  · exact absurd (hone.trans hone'.symm) hapart
  · rw [hone] at htext
    rw [htwo'] at htext'
    exact .inr (htext'.trans (congrArg ('/' :: ·) htext.symm))
  · rw [htwo] at htext
    rw [hone'] at htext'
    exact .inl (htext.trans (congrArg ('/' :: ·) htext'.symm))
  · exact absurd (htwo.trans htwo'.symm) hapart

theorem leadSlashes_of_rest {chars rest : List Char} (hwell : WellFormedPath chars)
    (hchars : chars = rest)
    (hrest : rest = [] ∨ ∃ tail, rest = '/' :: tail) :
    leadSlashes chars = 1 ∨ leadSlashes chars = 2 := by
  subst hchars
  obtain ⟨tail, rfl⟩ := hrest.resolve_left (ne_nil_of_wellFormed hwell)
  exact leadSlashes_slash (by simp)

theorem keptApart_iff (hroots : ∀ root ∈ roots, NormalRoot root)
    (hpath : MappablePath py roots path)
    (hother : MappablePath py roots other) :
    KeptApart py roots path other ↔ Unblurred py roots path other := by
  have hwellFormed : ∀ {path normalized}, MappablePath py roots path →
      normalizePath py path = some normalized →
      WellFormedPath normalized.toList := fun h hn =>
    (wellFormed_iff_anchored hn).2 (h.anchored (by rw [hn]; exact Option.some_ne_none _))
  refine forall₃_congr fun normalized normalized' root =>
    forall₄_congr fun hn hn' happlied happlied' => ?_
  obtain ⟨hmem, hbelow, -⟩ := appliedRoot_some happlied
  obtain ⟨-, hbelow', -⟩ := appliedRoot_some happlied'
  obtain ⟨⟨slashes, as, hsource⟩, lead, ns, hform⟩ := hroots root hmem
  have hwell := hwellFormed hpath hn
  have hwell' := hwellFormed hother hn'
  have hmapped :=
    mappedPath_eq_iff hform hwell hwell' hbelow hbelow' (hpath.fits normalized root hn happlied)
    (hother.fits normalized' root hn' happlied')
  obtain ⟨hsplit, hrest⟩ := split_rest hbelow
  obtain ⟨hsplit', hrest'⟩ := split_rest hbelow'
  rw [canonicalPath_applied hn happlied, canonicalPath_applied hn' happlied', hform.pathNames_eq,
    ne_eq (some _), Option.some_inj,
    hmapped]
  by_cases has : as = []
  · subst has
    rw [rstripSlash_bare hsource, List.nil_append] at hsplit hsplit'
    rw [rstripSlash_bare hsource, ← hsplit, ← hsplit']
    constructor
    · intro h _ hnamed
      refine ⟨fun heq =>
        h (fun hsame => ?_) ⟨by rw [heq, pathNames_sep], fun hnil => absurd hnil hnamed⟩,
        fun heq => h (fun hsame => ?_) ⟨by rw [heq, pathNames_sep], fun hnil => absurd hnil hnamed⟩⟩
      · rw [hsame] at heq
        exact List.cons_ne_self _ _ heq.symm
      · rw [hsame] at heq
        exact List.cons_ne_self _ _ heq.symm
    · rintro h hne ⟨hnames, hkept⟩
      have hapart : leadSlashes normalized.toList ≠ leadSlashes normalized'.toList := fun hsame =>
        hne (eq_of_wellFormed hwell hwell' hsame hnames)
      obtain ⟨hleft, hright⟩ := h rfl fun hnil => hapart (hkept hnil)
      exact (slash_apart hwell hwell' (leadSlashes_of_rest hwell hsplit hrest)
        (leadSlashes_of_rest hwell' hsplit' hrest') hnames
        hapart).elim hleft hright
  · have hbare : rstripSlash root.source ≠ [] := by
      rw [rstripSlash_named hsource has, hsource.text]
      exact render_ne_nil hsource.names (.inr has)
    refine iff_of_true (fun hne h => hne (eq_of_wellFormed hwell hwell' ?_ h.1)) fun hnil =>
      absurd hnil hbare
    rw [hsplit, hsplit', leadSlashes_append_rest hsource has, leadSlashes_append_rest hsource has]

/-- When paths under the roots of the settings form are canonical. -/
theorem canonicalPath_sound_iff {lines : List String} (hspaces : SpacesApart py)
    (hroots : acceptRoots py lines = some roots) :
    (SoundPath py roots path ∧ SoundPath py roots other ∧ KeptApart py roots path other) ↔
      (MappablePath py roots path ∧ MappablePath py roots other ∧
        Unblurred py roots path other) := by
  have hnormal := normal_acceptRoots hroots
  rw [soundPath_iff hspaces hnormal, soundPath_iff hspaces hnormal]
  refine and_congr_right fun hpath => and_congr_right fun hother => ?_
  exact keptApart_iff hnormal hpath hother

theorem spacesApart_plain : SpacesApart .plain := by
  rintro c (rfl | ⟨hlow, hhigh⟩ | ⟨hlow, hhigh⟩)
  · rfl
  all_goals
    show c.isWhitespace = false
    refine eq_false_of_ne_true fun hspace => ?_
    unfold Char.isWhitespace at hspace
    simp only [Bool.or_eq_true, decide_eq_true_eq] at hspace
    rcases hspace with ((rfl | rfl) | rfl) | rfl <;> revert hlow <;> decide

theorem canonicalPath_sound_shared :
    (SoundPath .plain [⟨"/media", "/shared"⟩] "/media/a.mkv" ∧
      SoundPath .plain [⟨"/media", "/shared"⟩] "/media/b.mkv" ∧
        KeptApart .plain [⟨"/media", "/shared"⟩] "/media/a.mkv" "/media/b.mkv") ↔
      (MappablePath .plain [⟨"/media", "/shared"⟩] "/media/a.mkv" ∧
        MappablePath .plain [⟨"/media", "/shared"⟩] "/media/b.mkv" ∧
        Unblurred .plain [⟨"/media", "/shared"⟩] "/media/a.mkv" "/media/b.mkv") :=
  @canonicalPath_sound_iff _ _ _ _ ["/media => /shared"] spacesApart_plain (by decide +kernel)

/-- The mapped root itself, under the canonical root `/`. -/
theorem mapped_to_dot : acceptRoots .plain ["/media => /"] = some [⟨"/media", "/"⟩] ∧
    canonicalPath .plain "/media" [⟨"/media", "/"⟩] = some "." ∧
    ¬ SoundPath .plain [⟨"/media", "/"⟩] "/media" := by
  have hmapped : canonicalPath .plain "/media" [⟨"/media", "/"⟩] = some "." := by decide +kernel
  refine ⟨by decide +kernel, hmapped, fun h => ?_⟩
  exact absurd (rooted_of_wellFormed (h.wellFormed _ hmapped)) (not_or.2 ⟨by decide, by decide⟩)

end Sound

end Euvieouvi
