import QrWireguard.Misc.CString
import QrWireguard.Misc.SortedLines

/-!
# The configuration list

`vtysh_config.c` and the part of `linklist.c` it rests on. The running configuration
`config_top` is a list of lines in `strcmp` order. Lines are added through a printf format,
removed by their whole text or by a text they start with, and written out one per line.
The second list of the source, `configvec`, is never filled, so `config_dump` writes nothing
for it.
-/

namespace QrWireguard.Vtysh

/-- `listnode_add_sort` with the comparison `line_cmp`, which is `strcmp`: the new node goes
in front of the first greater one. -/
abbrev listnodeAddSort (val : Str) (list : List Str) : List Str := insertAfter val list

/-- `vasprintf`, for the conversions `%%` and `%s`. Any other conversion, and a `%s` without
an argument, is undefined behaviour for the arguments the program passes. -/
def vasprintf : Str → List Str → Option Str
  | [], _ => some []
  | c :: fmt, args =>
    if c = '%' then
      match fmt, args with
      | '%' :: fmt, args => (vasprintf fmt args).map ('%' :: ·)
      | 's' :: fmt, a :: args => (vasprintf fmt args).map (a ++ ·)
      | _, _ => none
    else (vasprintf fmt args).map (c :: ·)

/-- `config_add_line`; `none` when the format has undefined behaviour. An empty text is not
added. -/
def configAddLine (config : List Str) (line : Str) (args : List Str) : Option (List Str) :=
  match vasprintf line args with
  | none => none
  | some info => if 0 < info.length then some (listnodeAddSort info config) else some config

/-- `config_del_line`: remove the first line equal to `line`. -/
def configDelLine (config : List Str) (line : Str) : List Str :=
  config.eraseP (· == line)

/-- `config_del_line_byleft`: remove the first line that starts with `line`. -/
def configDelLineByleft (config : List Str) (line : Str) : List Str :=
  config.eraseP (line.isPrefixOf ·)

/-- What `strftime (timestr, 200, "%c", tmp)` yields: a text that fits its buffer and holds
no newline. -/
structure Timestr where
  text : Str
  fits : text.length < 200
  noNewline : '\n' ∉ text

/-- `config_dump`: the lines, or nothing when `localtime` fails. -/
def configDump (configTop : List Str) : Option Timestr → Str
  | none => []
  | some timestr =>
    str "#Writed on " ++ timestr.text ++ str "\n" ++
      configTop.flatMap (fun line => line ++ str "\n") ++ str "!\n"

/-! ## Formatting -/

theorem vasprintf_cons {c : Char} (hc : c ≠ '%') (fmt : Str) (args : List Str) :
    vasprintf (c :: fmt) args = (vasprintf fmt args).map (c :: ·) := by
  rw [vasprintf.eq_def]
  exact if_neg hc

/-- A format without a percent sign is printed as it is. -/
theorem vasprintf_of_not_mem {fmt : Str} (h : '%' ∉ fmt) (args : List Str) :
    vasprintf fmt args = some fmt := by
  induction fmt with
  | nil => rfl
  | cons c fmt ih =>
    simp only [List.mem_cons, not_or] at h
    have hc : c ≠ '%' := fun hc => h.1 hc.symm
    rw [vasprintf_cons hc, ih h.2]
    rfl

/-- The part of a format in front of its first percent sign is printed as it is. -/
theorem vasprintf_append {fmt : Str} (h : '%' ∉ fmt) (rest : Str) (args : List Str) :
    vasprintf (fmt ++ rest) args = (vasprintf rest args).map (fmt ++ ·) := by
  induction fmt with
  | nil => simp
  | cons c fmt ih =>
    simp only [List.mem_cons, not_or] at h
    have hc : c ≠ '%' := fun hc => h.1 hc.symm
    rw [List.cons_append, vasprintf_cons hc, ih h.2, Option.map_map]
    rfl

/-- The three ways in which a format without arguments is printed. -/
theorem vasprintf_cases {fmt info : Str} (h : vasprintf fmt [] = some info) :
    (fmt = [] ∧ info = []) ∨
    (∃ c fmt' info', c ≠ '%' ∧ fmt = c :: fmt' ∧ info = c :: info' ∧
      vasprintf fmt' [] = some info') ∨
    ∃ fmt' info', fmt = '%' :: '%' :: fmt' ∧ info = '%' :: info' ∧
      vasprintf fmt' [] = some info' := by
  match fmt with
  | [] => exact .inl ⟨rfl, (Option.some.inj h).symm⟩
  | c :: fmt =>
    by_cases hc : c = '%'
    · subst hc
      match fmt with
      | [] => simp [vasprintf] at h
      | d :: fmt =>
        by_cases hd : d = '%'
        · subst hd
          simp only [vasprintf, if_true] at h
          obtain ⟨info', hinfo', rfl⟩ := Option.map_eq_some_iff.mp h
          exact .inr (.inr ⟨fmt, info', rfl, rfl, hinfo'⟩)
        · simp [vasprintf, hd] at h
    · rw [vasprintf_cons hc] at h
      obtain ⟨info', hinfo', rfl⟩ := Option.map_eq_some_iff.mp h
      exact .inr (.inl ⟨c, fmt, info', hc, rfl, rfl, hinfo'⟩)

/-- A text that is not printed as it stands gets shorter. -/
theorem vasprintf_length {fmt info : Str} (h : vasprintf fmt [] = some info) :
    info.length ≤ fmt.length ∧ ('%' ∈ fmt → info.length < fmt.length) := by
  induction info generalizing fmt with
  | nil =>
    rcases vasprintf_cases h with ⟨rfl, -⟩ | ⟨_, _, _, _, _, hinfo, _⟩ | ⟨_, _, _, hinfo, _⟩
    · exact ⟨le_refl _, nofun⟩
    · cases hinfo
    · cases hinfo
  | cons c info ih =>
    rcases vasprintf_cases h with ⟨-, hinfo⟩ | ⟨d, fmt, info', hd, rfl, hinfo, hrest⟩ |
      ⟨fmt, info', rfl, hinfo, hrest⟩
    · cases hinfo
    · cases hinfo
      obtain ⟨hle, hlt⟩ := ih hrest
      refine ⟨Nat.succ_le_succ hle, fun hmem => Nat.succ_lt_succ (hlt ?_)⟩
      exact (List.mem_cons.mp hmem).resolve_left fun heq => hd heq.symm
    · cases hinfo
      obtain ⟨hle, -⟩ := ih hrest
      simp only [List.length_cons]
      exact ⟨by omega, fun _ => by omega⟩

/-- Nothing is printed that the format does not hold. -/
theorem vasprintf_subset {fmt info : Str} (h : vasprintf fmt [] = some info) : info ⊆ fmt := by
  induction info generalizing fmt with
  | nil => exact List.nil_subset _
  | cons c info ih =>
    rcases vasprintf_cases h with ⟨-, hinfo⟩ | ⟨d, fmt, info', -, rfl, hinfo, hrest⟩ |
      ⟨fmt, info', rfl, hinfo, hrest⟩
    · cases hinfo
    · cases hinfo
      exact List.cons_subset_cons _ (ih hrest)
    · cases hinfo
      exact List.cons_subset_cons _ (List.subset_cons_of_subset _ (ih hrest))

/-- A text is printed as it stands when it holds no percent sign. -/
theorem vasprintf_self_iff {fmt : Str} : vasprintf fmt [] = some fmt ↔ '%' ∉ fmt := by
  constructor
  · intro h hmem
    exact absurd ((vasprintf_length h).2 hmem) (lt_irrefl _)
  · intro h
    exact vasprintf_of_not_mem h []

theorem configAddLine_eq_some {config config' : List Str} {line : Str} {args : List Str}
    (h : configAddLine config line args = some config') :
    ∃ info, vasprintf line args = some info ∧
      (config' = listnodeAddSort info config ∨ info = [] ∧ config' = config) := by
  unfold configAddLine at h
  cases hv : vasprintf line args with
  | none => simp [hv] at h
  | some info =>
    refine ⟨info, rfl, ?_⟩
    rw [hv] at h
    simp only at h
    split at h
    · exact .inl (Option.some.inj h).symm
    · next hlen => exact .inr ⟨by simpa using hlen, (Option.some.inj h).symm⟩

end QrWireguard.Vtysh
