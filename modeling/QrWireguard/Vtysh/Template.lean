import QrWireguard.Misc.Words
import QrWireguard.Vtysh.Command

/-!
# Templates and their help texts

`cmd_make_descvec` with the help texts that it attaches to the words, one round of its loop at a
time. Parsing undoes the printing of a template, every round takes at least one byte, and without
the help texts the result is the one of `cmdMakeDescvec`.
-/

namespace QrWireguard.Vtysh

/-! ## The parser -/

/-- `struct desc`: a word of a template and its help text, which is missing when there are fewer
lines than words. -/
structure Desc where
  cmd : Str
  str : Option Str
  deriving DecidableEq

/-- The end of a help line. -/
def endsLine (c : Char) : Bool := c == '\r' || c == '\n'

/-- `cmd_desc_str`: the next help line, and the rest of the text. -/
def cmdDescStr (string : Str) : Option Str × Str :=
  let cp := string.dropWhile isspace
  if cp = [] then (none, string)
  else (some (cp.takeWhile fun c => !endsLine c), cp.dropWhile fun c => !endsLine c)

/-- Add a word to the last position. -/
def addDesc (desc : Desc) : List (List Desc) → List (List Desc)
  | [] => []
  | [strvec] => [strvec ++ [desc]]
  | strvec :: allvec => strvec :: addDesc desc allvec

/-- The variables of the loop of `cmd_make_descvec`; `strvec` is the last list of `allvec`. -/
structure DescvecState where
  multiple : Nat
  allvec : List (List Desc)
  cp : Str
  dp : Str

/-- The first part of a round, up to the start of a word: `multiple` and what is left of the
template. `none` is the exit on a stray bar. -/
def descvecCursor (multiple : Nat) (cp : Str) : Option (Nat × Str) :=
  let cp := cp.dropWhile isspace
  let (multiple, cp) := if cp.head? = some '(' then (1, cp.tail) else (multiple, cp)
  let (multiple, cp) := if cp.head? = some ')' then (0, cp.tail) else (multiple, cp)
  if cp.head? = some '|' ∧ multiple = 0 then none
  else
    let cp := if cp.head? = some '|' then cp.tail else cp
    let cp := cp.dropWhile isspace
    some (if cp.head? = some '(' then (1, cp.tail) else (multiple, cp))

/-- How a round of the loop ends. -/
inductive DescvecRound where
  /-- The template is at its end. -/
  | returned (allvec : List (List Desc))
  /-- `exit`, after the parse error is printed. -/
  | exited
  | again (s : DescvecState)

/-- One round of the loop of `cmd_make_descvec`. -/
def descvecRound (s : DescvecState) : DescvecRound :=
  match descvecCursor s.multiple s.cp with
  | none => .exited
  | some (multiple, cp) =>
    if cp = [] then .returned s.allvec
    else
      let desc : Desc := ⟨cp.takeWhile fun c => !endsToken c, (cmdDescStr s.dp).1⟩
      .again {
        multiple := if multiple = 0 then 0 else multiple + 1
        allvec := if multiple ≤ 1 then s.allvec ++ [[desc]] else addDesc desc s.allvec
        cp := cp.dropWhile fun c => !endsToken c
        dp := (cmdDescStr s.dp).2 }

/-- At most `fuel` rounds: the outer `none` when they do not end the loop, the inner one for the
exit. -/
def descvecRounds : Nat → DescvecState → Option (Option (List (List Desc)))
  | 0, _ => none
  | fuel + 1, s =>
    match descvecRound s with
    | .returned allvec => some (some allvec)
    | .exited => some none
    | .again s => descvecRounds fuel s

/-- The rounds of `cmd_make_descvec` on a template and a help text. -/
def makeDescvecRounds (fuel : Nat) (string descstr : Str) : Option (Option (List (List Desc))) :=
  descvecRounds fuel ⟨0, [], string, descstr⟩

theorem addDesc_concat (desc : Desc) (allvec : List (List Desc)) (strvec : List Desc) :
    addDesc desc (allvec ++ [strvec]) = allvec ++ [strvec ++ [desc]] := by
  induction allvec with
  | nil => rfl
  | cons a allvec ih =>
    cases allvec with
    | nil => rfl
    | cons b allvec => simpa [addDesc] using ih

/-! ## Every round takes a byte -/

section
variable {multiple multiple' : Nat} {cp cp' : Str} {s s' : DescvecState}

/-- Take a character when it comes next. -/
def eat (c : Char) (cp : Str) : Str := if cp.head? = some c then cp.tail else cp

theorem eat_suffix (c : Char) (cp : Str) : eat c cp <:+ cp := by
  unfold eat
  split
  · exact List.tail_suffix cp
  · exact List.suffix_refl cp

/-- When nothing is taken, another character comes next. -/
theorem head_ne_of_eat {c : Char} (h : eat c cp = cp) : cp.head? ≠ some c := by
  intro hc
  rw [eat, if_pos hc] at h
  cases cp with
  | nil => cases hc
  | cons d cp => exact absurd (congrArg List.length h) (by simp)

theorem head_of_skip {c : Char} (h : cp.dropWhile isspace = cp) (hc : cp.head? = some c) :
    isspace c = false := by
  have hhead := List.head?_dropWhile_not isspace cp
  rw [h, hc] at hhead
  exact hhead

theorem ite_pair_eat (c : Char) (k m : Nat) (x : Str) :
    (if x.head? = some c then (k, x.tail) else (m, x)) =
      (if x.head? = some c then k else m, eat c x) := by
  unfold eat
  split <;> rfl

theorem descvecCursor_rest (h : descvecCursor multiple cp = some (multiple', cp')) :
    cp' = eat '(' ((eat '|' (eat ')' (eat '(' (cp.dropWhile isspace)))).dropWhile isspace) := by
  simp only [descvecCursor, ite_pair_eat, Option.ite_none_left_eq_some, Option.some.injEq] at h
  exact (congrArg Prod.snd h.2).symm

/-- A round that goes on takes a byte: when nothing was taken in front of the word, the word is
not empty. -/
theorem descvecCursor_progress (h : descvecCursor multiple cp = some (multiple', cp'))
    (hne : cp' ≠ []) : (cp'.dropWhile fun c => !endsToken c).length < cp.length := by
  have hdrop := (List.dropWhile_suffix (l := cp') fun c => !endsToken c).length_le
  have hrest := descvecCursor_rest h
  generalize hcp₁ : cp.dropWhile isspace = cp₁ at hrest
  generalize hcp₂ : eat '(' cp₁ = cp₂ at hrest
  generalize hcp₃ : eat ')' cp₂ = cp₃ at hrest
  generalize hcp₄ : eat '|' cp₃ = cp₄ at hrest
  generalize hcp₅ : cp₄.dropWhile isspace = cp₅ at hrest
  have h₁ : cp₁ <:+ cp := hcp₁ ▸ List.dropWhile_suffix _
  have h₂ : cp₂ <:+ cp₁ := hcp₂ ▸ eat_suffix _ _
  have h₃ : cp₃ <:+ cp₂ := hcp₃ ▸ eat_suffix _ _
  have h₄ : cp₄ <:+ cp₃ := hcp₄ ▸ eat_suffix _ _
  have h₅ : cp₅ <:+ cp₄ := hcp₅ ▸ List.dropWhile_suffix _
  have h₆ : cp' <:+ cp₅ := hrest ▸ eat_suffix _ _
  have hlen := And.intro (And.intro h₁.length_le (And.intro h₂.length_le h₃.length_le))
    (And.intro h₄.length_le (And.intro h₅.length_le h₆.length_le))
  by_contra hlt
  -- nothing was taken in front of the word, so its first character comes next
  obtain rfl : cp₁ = cp := h₁.eq_of_length (by omega)
  obtain rfl : cp₂ = cp₁ := h₂.eq_of_length (by omega)
  obtain rfl : cp₃ = cp₂ := h₃.eq_of_length (by omega)
  obtain rfl : cp₄ = cp₃ := h₄.eq_of_length (by omega)
  obtain rfl : cp₅ = cp₄ := h₅.eq_of_length (by omega)
  obtain rfl : cp' = cp₅ := h₆.eq_of_length (by omega)
  obtain ⟨c, cs, rfl⟩ := List.exists_cons_of_ne_nil hne
  have hspace : isspace c = false := head_of_skip hcp₁ rfl
  have hclose : c ≠ ')' := fun hc => head_ne_of_eat hcp₃ (congrArg some hc)
  have hbar : c ≠ '|' := fun hc => head_ne_of_eat hcp₄ (congrArg some hc)
  have hends : endsToken c = false := by simp [endsToken, hspace, hclose, hbar]
  rw [List.dropWhile_cons_of_pos (by simp [hends])] at hlt
  exact hlt (Nat.lt_succ_of_le (List.dropWhile_suffix _).length_le)

/-- Every round that goes on leaves less of the template. -/
theorem descvecRound_progress (h : descvecRound s = .again s') : s'.cp.length < s.cp.length := by
  unfold descvecRound at h
  split at h
  · cases h
  · next multiple cp hcursor =>
    split at h
    · cases h
    · next hne =>
      obtain rfl := DescvecRound.again.inj h
      exact descvecCursor_progress hcursor hne

/-- As many rounds as there are bytes end the loop. -/
theorem descvecRounds_isSome {fuel : Nat} (h : s.cp.length < fuel) :
    (descvecRounds fuel s).isSome = true := by
  induction fuel generalizing s with
  | zero => omega
  | succ fuel ih =>
    unfold descvecRounds
    cases hround : descvecRound s with
    | returned allvec => rfl
    | exited => rfl
    | again s' =>
      have hlt := descvecRound_progress hround
      exact ih (by omega)

end

/-! ## Without the help texts -/

/-- The words of the descriptors. -/
def Desc.words (allvec : List (List Desc)) : List (List Str) := allvec.map (·.map Desc.cmd)

theorem words_addDesc (desc : Desc) (allvec : List (List Desc)) :
    Desc.words (addDesc desc allvec) = addAlternative desc.cmd (Desc.words allvec) := by
  fun_induction addDesc desc allvec with
  | case1 => rfl
  | case2 strvec => simp [Desc.words, addAlternative]
  | case3 strvec allvec hne ih =>
    cases allvec with
    | nil => exact absurd rfl hne
    | cons strvec' allvec => simpa [Desc.words, addAlternative] using ih

/-- Without the help texts, a round is one of `cmdMakeDescvecLoop`. -/
theorem cmdMakeDescvecLoop_eq (fuel multiple : Nat) (allvec : List (List Desc)) (cp dp : Str) :
    cmdMakeDescvecLoop (fuel + 1) multiple (Desc.words allvec) cp =
      match descvecRound ⟨multiple, allvec, cp, dp⟩ with
      | .returned allvec => some (Desc.words allvec)
      | .exited => none
      | .again s => cmdMakeDescvecLoop fuel s.multiple (Desc.words s.allvec) s.cp := by
  have hnew : ∀ desc : Desc, Desc.words (allvec ++ [[desc]]) = Desc.words allvec ++ [[desc.cmd]] := by
    simp [Desc.words]
  simp only [cmdMakeDescvecLoop, descvecRound, descvecCursor, ite_pair_eat]
  generalize eat ')' (eat '(' (cp.dropWhile isspace)) = cp₁
  generalize (if (eat '(' (cp.dropWhile isspace)).head? = some ')' then 0
    else if (cp.dropWhile isspace).head? = some '(' then 1 else multiple) = m₁
  by_cases hbar : cp₁.head? = some '|' ∧ m₁ = 0
  · rw [if_pos hbar, if_pos hbar]
  · rw [if_neg hbar, if_neg hbar]
    dsimp only
    generalize (if cp₁.head? = some '|' then cp₁.tail else cp₁).dropWhile isspace = cp₂
    generalize (if cp₂.head? = some '(' then 1 else m₁) = m₂
    generalize eat '(' cp₂ = cp₃
    by_cases hnil : cp₃ = []
    · rw [if_pos hnil, if_pos hnil]
    · rw [if_neg hnil, if_neg hnil]
      dsimp only
      match m₂ with
      | 0 => simp [hnew]
      | 1 => simp [hnew]
      | m + 2 => simp [words_addDesc]

/-- The parser without help texts is the one with them. -/
theorem cmdMakeDescvec_eq (string descstr : Str) :
    (makeDescvecRounds (string.length + 1) string descstr).map (·.map Desc.words) =
      some (cmdMakeDescvec string) := by
  have hrun : ∀ (fuel k : Nat) (s : DescvecState), s.cp.length < fuel →
      (descvecRounds fuel s).map (·.map Desc.words) =
        some (cmdMakeDescvecLoop (fuel + k) s.multiple (Desc.words s.allvec) s.cp) := by
    intro fuel k
    induction fuel with
    | zero =>
      intro s h
      omega
    | succ fuel ih =>
      intro s h
      rw [Nat.add_right_comm, cmdMakeDescvecLoop_eq _ _ _ _ s.dp, descvecRounds]
      cases hround : descvecRound s with
      | returned allvec => rfl
      | exited => rfl
      | again s' =>
        have hlt := descvecRound_progress hround
        exact ih s' (by omega)
  have hfuel : 2 * string.length + 2 = string.length + 1 + (string.length + 1) := by omega
  rw [cmdMakeDescvec, hfuel]
  exact hrun (string.length + 1) (string.length + 1) ⟨0, [], string, descstr⟩ (Nat.lt_succ_self _)

/-! ## Printing -/

/-- A character of a word of a template. -/
structure Plain (c : Char) : Prop where
  space : isspace c = false
  opens : c ≠ '('
  closes : c ≠ ')'
  bar : c ≠ '|'

/-- A word of a template. -/
def IsTemplateWord (w : Str) : Prop := w ≠ [] ∧ ∀ c ∈ w, Plain c

/-- A help line: not blank, without white space in front, and without a line end inside. -/
def IsHelpLine (line : Str) : Prop :=
  (∃ c ∈ line.head?, isspace c = false) ∧ ∀ c ∈ line, endsLine c = false

/-- A position is one word, or several words in parentheses. -/
def printPosition : List Str → Str
  | [w] => w
  | ws => '(' :: unwords '|' ws ++ [')']

/-- The positions with a blank between neighbours. -/
def printTemplate (positions : List (List Str)) : Str := unwords ' ' (positions.map printPosition)

/-- The help lines, each with its line end. -/
def printHelp (lines : List Str) : Str := lines.flatMap (· ++ ['\n'])

/-- The words with a help line each. -/
def attach (ws lines : List Str) : List Desc := List.zipWith (fun w line => ⟨w, some line⟩) ws lines

section
variable {m : Nat} {allvec : List (List Desc)} {w rest dp line : Str} {lines : List Str}

theorem endsToken_of_plain {c : Char} (h : Plain c) : endsToken c = false := by
  simp [endsToken, h.space, h.closes, h.bar]

/-! ### Reading one help line -/

/-- What is left of the help text holds these lines. -/
def HelpAt (dp : Str) (lines : List Str) : Prop := dp.dropWhile isspace = printHelp lines

theorem helpAt_printHelp (h : ∀ line ∈ lines, IsHelpLine line) : HelpAt (printHelp lines) lines := by
  cases lines with
  | nil => rfl
  | cons line lines =>
    obtain ⟨⟨c, hhead, hc⟩, -⟩ := h line List.mem_cons_self
    cases line with
    | nil => cases hhead
    | cons d line =>
      obtain rfl : d = c := by simpa using hhead
      exact List.dropWhile_cons_of_neg (by simp [hc])

theorem cmdDescStr_line (h : HelpAt dp (line :: lines)) (hline : IsHelpLine line)
    (hlines : ∀ line ∈ lines, IsHelpLine line) :
    (cmdDescStr dp).1 = some line ∧ HelpAt (cmdDescStr dp).2 lines := by
  have htext : dp.dropWhile isspace = line ++ '\n' :: printHelp lines := by
    rw [h, printHelp, List.flatMap_cons, List.append_assoc]
    rfl
  have hne : line ++ '\n' :: printHelp lines ≠ [] := by simp
  have hall : ∀ c ∈ line, (!endsLine c) = true := fun c hc => by simp [hline.2 c hc]
  have hcut : ∀ s : Str, ('\n' :: s).takeWhile (fun c => !endsLine c) = [] := fun s => rfl
  have hdrop : ∀ s : Str, ('\n' :: s).dropWhile (fun c => !endsLine c) = '\n' :: s := fun s => rfl
  unfold cmdDescStr
  dsimp only
  rw [htext, if_neg hne, List.takeWhile_append_of_pos hall, List.dropWhile_append_of_pos hall, hcut,
    hdrop, List.append_nil]
  exact ⟨rfl, helpAt_printHelp hlines⟩

/-! ### Reading one word -/

/-- What stands between two positions, with the state of `multiple` in front of it. -/
inductive Boundary : Nat → Str → Prop
  | start : Boundary 0 []
  | blank : Boundary 0 [' ']
  | close (m : Nat) : Boundary m [')']
  | closeBlank (m : Nat) : Boundary m [')', ' ']

theorem skip_blank (s : Str) : (' ' :: s).dropWhile isspace = s.dropWhile isspace := rfl
theorem skip_open (s : Str) : ('(' :: s).dropWhile isspace = '(' :: s := rfl
theorem skip_close (s : Str) : (')' :: s).dropWhile isspace = ')' :: s := rfl
theorem skip_bar (s : Str) : ('|' :: s).dropWhile isspace = '|' :: s := rfl

theorem Plain.skip {c : Char} (h : Plain c) (s : Str) : (c :: s).dropWhile isspace = c :: s :=
  List.dropWhile_cons_of_neg (by simp [h.space])

theorem descvecCursor_word {c : Char} {lead cs : Str} (h : Boundary m lead) (hc : Plain c) :
    descvecCursor m (lead ++ c :: cs) = some (0, c :: cs) := by
  have hskip := hc.skip cs
  obtain ⟨-, hopen, hclose, hbar⟩ := hc
  cases h <;> simp [descvecCursor, skip_blank, skip_close, hskip, hopen, hclose, hbar]

theorem descvecCursor_group {c : Char} {lead cs : Str} (h : Boundary m lead) (hc : Plain c) :
    descvecCursor m (lead ++ '(' :: c :: cs) = some (1, c :: cs) := by
  have hskip := hc.skip cs
  obtain ⟨-, hopen, hclose, hbar⟩ := hc
  cases h <;>
    simp [descvecCursor, skip_blank, skip_close, skip_open, hskip, hopen, hclose, hbar]

theorem descvecCursor_bar {c : Char} {cs : Str} (hm : m ≠ 0) (hc : Plain c) :
    descvecCursor m ('|' :: c :: cs) = some (m, c :: cs) := by
  have hskip := hc.skip cs
  obtain ⟨-, hopen, -, -⟩ := hc
  simp [descvecCursor, skip_bar, hskip, hopen, hm]

theorem descvecCursor_end {lead : Str} (h : m = 0 ∧ lead = [] ∨ lead = [')']) :
    descvecCursor m lead = some (0, []) := by
  obtain ⟨rfl, rfl⟩ | rfl := h
  · rfl
  · rfl

/-- The round that reads a word. -/
theorem descvecRound_word {m' : Nat} {cp : Str} (allvec : List (List Desc)) (dp : Str)
    (hcursor : descvecCursor m cp = some (m', w ++ rest)) (hw : IsTemplateWord w)
    (hrest : rest.head?.all endsToken = true) :
    descvecRound ⟨m, allvec, cp, dp⟩ = .again {
      multiple := if m' = 0 then 0 else m' + 1
      allvec := if m' ≤ 1 then allvec ++ [[⟨w, (cmdDescStr dp).1⟩]]
        else addDesc ⟨w, (cmdDescStr dp).1⟩ allvec
      cp := rest
      dp := (cmdDescStr dp).2 } := by
  have hne : w ++ rest ≠ [] := by simp [hw.1]
  have hall : ∀ c ∈ w, (!endsToken c) = true := fun c hc => by simp [endsToken_of_plain (hw.2 c hc)]
  have hstop : rest.takeWhile (fun c => !endsToken c) = [] ∧
      rest.dropWhile (fun c => !endsToken c) = rest := by
    cases rest with
    | nil => exact ⟨rfl, rfl⟩
    | cons d rest =>
      have hd : endsToken d = true := by simpa using hrest
      exact ⟨List.takeWhile_cons_of_neg (by simp [hd]), List.dropWhile_cons_of_neg (by simp [hd])⟩
  unfold descvecRound
  rw [hcursor]
  dsimp only
  rw [if_neg hne, List.takeWhile_append_of_pos hall, List.dropWhile_append_of_pos hall, hstop.1,
    hstop.2, List.append_nil]

/-! ### Reading a template -/

/-- The loop ends with this from the state, within one round for each byte and one more. -/
def Parses (s : DescvecState) (r : Option (List (List Desc))) : Prop :=
  descvecRounds (s.cp.length + 1) s = some r

theorem descvecRounds_mono {s : DescvecState} {r : Option (List (List Desc))} {fuel fuel' : Nat}
    (h : descvecRounds fuel s = some r) (hle : fuel ≤ fuel') : descvecRounds fuel' s = some r := by
  induction fuel generalizing s fuel' with
  | zero => cases h
  | succ fuel ih =>
    obtain ⟨fuel', rfl⟩ : ∃ k, fuel' = k + 1 := ⟨fuel' - 1, by omega⟩
    unfold descvecRounds at h ⊢
    cases hround : descvecRound s with
    | returned allvec => rwa [hround] at h
    | exited => rwa [hround] at h
    | again s' =>
      rw [hround] at h
      exact ih h (Nat.le_of_succ_le_succ hle)

theorem Parses.again {s s' : DescvecState} {r : Option (List (List Desc))}
    (hround : descvecRound s = .again s') (h : Parses s' r) : Parses s r := by
  have hlt := descvecRound_progress hround
  unfold Parses descvecRounds
  rw [hround]
  exact descvecRounds_mono h hlt

/-- The words of a group behind the first one. -/
theorem parses_group {ws ls : List Str} {strvec : List Desc} {r : Option (List (List Desc))}
    (hws : ∀ w ∈ ws, IsTemplateWord w) (hls : ∀ line ∈ ls ++ lines, IsHelpLine line)
    (hlen : ls.length = ws.length) (hm : 2 ≤ m) (hdp : HelpAt dp (ls ++ lines))
    (hnext : ∀ m' dp', HelpAt dp' lines →
      Parses ⟨m', allvec ++ [strvec ++ attach ws ls], ')' :: rest, dp'⟩ r) :
    Parses ⟨m, allvec ++ [strvec], tailWords '|' ws ++ ')' :: rest, dp⟩ r := by
  induction ws generalizing m ls strvec dp with
  | nil =>
    obtain rfl := List.length_eq_zero_iff.mp hlen
    have hstrvec : strvec ++ attach [] [] = strvec := List.append_nil _
    rw [← hstrvec]
    exact hnext m dp hdp
  | cons w ws ih =>
    cases ls with
    | nil => cases hlen
    | cons line ls =>
      have hw := hws w List.mem_cons_self
      obtain ⟨c, cs, rfl⟩ := List.exists_cons_of_ne_nil hw.1
      have hlines : ∀ l ∈ ls ++ lines, IsHelpLine l := fun l hl => hls l (List.mem_cons_of_mem _ hl)
      obtain ⟨htext, hdp'⟩ := cmdDescStr_line hdp (hls line List.mem_cons_self) hlines
      have hcursor : descvecCursor m ('|' :: c :: (cs ++ (tailWords '|' ws ++ ')' :: rest))) =
          some (m, c :: cs ++ (tailWords '|' ws ++ ')' :: rest)) :=
        descvecCursor_bar (by omega) (hw.2 c List.mem_cons_self)
      have hrest : (tailWords '|' ws ++ ')' :: rest).head?.all endsToken = true := by
        cases ws <;> rfl
      have hround := descvecRound_word (allvec ++ [strvec]) dp hcursor hw hrest
      rw [if_neg (by omega), if_neg (by omega), htext, addDesc_concat] at hround
      have hshape : tailWords '|' ((c :: cs) :: ws) ++ ')' :: rest =
          '|' :: c :: (cs ++ (tailWords '|' ws ++ ')' :: rest)) := by
        rw [tailWords_cons]
        simp
      rw [hshape]
      refine Parses.again hround ?_
      refine ih (fun w hw => hws w (List.mem_cons_of_mem _ hw)) hlines (Nat.succ.inj hlen) (by omega)
        hdp' fun m' dp'' hdp'' => ?_
      have hstrvec : strvec ++ [⟨c :: cs, some line⟩] ++ attach ws ls =
          strvec ++ attach ((c :: cs) :: ws) (line :: ls) := by simp [attach]
      rw [hstrvec]
      exact hnext m' dp'' hdp''

/-- One position, in front of the end or of a blank. Behind a group its parenthesis is left. -/
theorem parses_position {ws ls : List Str} {lead : Str} {r : Option (List (List Desc))}
    (hne : ws ≠ []) (hws : ∀ w ∈ ws, IsTemplateWord w) (hls : ∀ line ∈ ls ++ lines, IsHelpLine line)
    (hlen : ls.length = ws.length) (hlead : Boundary m lead) (hdp : HelpAt dp (ls ++ lines))
    (hrest : rest.head?.all endsToken = true)
    (hnext : ∀ m' close dp', (m' = 0 ∧ close = [] ∨ close = [')']) → HelpAt dp' lines →
      Parses ⟨m', allvec ++ [attach ws ls], close ++ rest, dp'⟩ r) :
    Parses ⟨m, allvec, lead ++ (printPosition ws ++ rest), dp⟩ r := by
  obtain ⟨w, ws, rfl⟩ := List.exists_cons_of_ne_nil hne
  cases ls with
  | nil => cases hlen
  | cons line ls =>
    have hw := hws w List.mem_cons_self
    obtain ⟨c, cs, rfl⟩ := List.exists_cons_of_ne_nil hw.1
    have hc := hw.2 c List.mem_cons_self
    have hlines : ∀ l ∈ ls ++ lines, IsHelpLine l := fun l hl => hls l (List.mem_cons_of_mem _ hl)
    obtain ⟨htext, hdp'⟩ := cmdDescStr_line hdp (hls line List.mem_cons_self) hlines
    cases ws with
    | nil =>
      obtain rfl := List.length_eq_zero_iff.mp (Nat.succ.inj hlen)
      have hcursor : descvecCursor m (lead ++ c :: (cs ++ rest)) = some (0, c :: cs ++ rest) :=
        descvecCursor_word hlead hc
      have hround := descvecRound_word allvec dp hcursor hw hrest
      rw [if_pos rfl, if_pos (Nat.zero_le 1), htext] at hround
      exact Parses.again hround (hnext 0 [] _ (.inl ⟨rfl, rfl⟩) hdp')
    | cons v ws =>
      have hshape : printPosition ((c :: cs) :: v :: ws) ++ rest =
          '(' :: c :: (cs ++ (tailWords '|' (v :: ws) ++ ')' :: rest)) := by
        rw [printPosition, unwords_cons]
        · simp
        · simp
      have hstop : (tailWords '|' (v :: ws) ++ ')' :: rest).head?.all endsToken = true := rfl
      have hcursor : descvecCursor m
          (lead ++ '(' :: c :: (cs ++ (tailWords '|' (v :: ws) ++ ')' :: rest))) =
            some (1, c :: cs ++ (tailWords '|' (v :: ws) ++ ')' :: rest)) :=
        descvecCursor_group hlead hc
      have hround := descvecRound_word allvec dp hcursor hw hstop
      rw [if_neg Nat.one_ne_zero, if_pos le_rfl, htext] at hround
      rw [hshape]
      refine Parses.again hround (parses_group (fun w hw => hws w (List.mem_cons_of_mem _ hw)) hlines
        (Nat.succ.inj hlen) le_rfl hdp' fun m' dp'' hdp'' => ?_)
      exact hnext m' [')'] dp'' (.inr rfl) hdp''

/-- The descriptors of a template: the words of each position, with the next help lines. -/
def describe : List (List Str) → List Str → List (List Desc)
  | [], _ => []
  | ws :: positions, lines =>
    attach ws (lines.take ws.length) :: describe positions (lines.drop ws.length)

/-- The number of words of a template. -/
def wordCount (positions : List (List Str)) : Nat := (positions.map List.length).sum

theorem parses_template {positions : List (List Str)} {lead : Str} (hne : positions ≠ [])
    (hpositions : ∀ ws ∈ positions, ws ≠ [] ∧ ∀ w ∈ ws, IsTemplateWord w)
    (hlines : ∀ line ∈ lines, IsHelpLine line) (hlen : lines.length = wordCount positions)
    (hlead : Boundary m lead) (hdp : HelpAt dp lines) :
    Parses ⟨m, allvec, lead ++ printTemplate positions, dp⟩
      (some (allvec ++ describe positions lines)) := by
  induction positions generalizing m lead allvec lines dp with
  | nil => exact absurd rfl hne
  | cons ws positions ih =>
    obtain ⟨hws, hwords⟩ := hpositions ws List.mem_cons_self
    rw [wordCount, List.map_cons, List.sum_cons, ← wordCount] at hlen
    have hcount : (lines.take ws.length).length = ws.length := by
      rw [List.length_take]
      omega
    have hsplit : lines.take ws.length ++ lines.drop ws.length = lines :=
      List.take_append_drop ws.length lines
    rw [printTemplate, List.map_cons, unwords_cons]
    refine parses_position hws hwords (hsplit.symm ▸ hlines) hcount hlead (hsplit.symm ▸ hdp) ?_ ?_
    · cases positions <;> rfl
    · intro m' close dp' hclose hdp'
      cases positions with
      | nil =>
        rw [List.map_nil, show tailWords ' ' ([] : List Str) = [] from rfl, List.append_nil]
        unfold Parses descvecRounds descvecRound
        rw [descvecCursor_end hclose]
        rfl
      | cons ws' positions =>
        have hboundary : Boundary m' (close ++ [' ']) := by
          obtain ⟨rfl, rfl⟩ | rfl := hclose
          · exact .blank
          · exact .closeBlank m'
        have hshape : close ++ tailWords ' ' ((ws' :: positions).map printPosition) =
            (close ++ [' ']) ++ printTemplate (ws' :: positions) := by
          rw [printTemplate, List.map_cons, unwords_cons, tailWords_cons]
          simp
        have hlen' : (lines.drop ws.length).length = wordCount (ws' :: positions) := by
          rw [List.length_drop]
          omega
        have hall : allvec ++ describe (ws :: ws' :: positions) lines =
            allvec ++ [attach ws (lines.take ws.length)] ++
              describe (ws' :: positions) (lines.drop ws.length) := by
          rw [describe, List.append_assoc, List.singleton_append]
        rw [hshape, hall]
        exact ih (by simp) (fun v hv => hpositions v (List.mem_cons_of_mem _ hv))
          (fun line hl => hlines line (List.mem_of_mem_drop hl)) hlen' hboundary hdp'

theorem attach_spec {ws ls : List Str} (hlen : ls.length = ws.length) :
    (attach ws ls).map Desc.cmd = ws ∧ (attach ws ls).map Desc.str = ls.map some := by
  induction ws generalizing ls with
  | nil =>
    obtain rfl := List.length_eq_zero_iff.mp hlen
    exact ⟨rfl, rfl⟩
  | cons w ws ih =>
    cases ls with
    | nil => cases hlen
    | cons line ls =>
      obtain ⟨hcmd, hstr⟩ := ih (Nat.succ.inj hlen)
      exact ⟨congrArg (w :: ·) hcmd, congrArg (some line :: ·) hstr⟩

/-- The descriptors hold the words position by position, and the help lines in order. -/
theorem describe_spec {positions : List (List Str)} (hlen : lines.length = wordCount positions) :
    (describe positions lines).map (·.map Desc.cmd) = positions ∧
      (describe positions lines).flatten.map Desc.str = lines.map some := by
  induction positions generalizing lines with
  | nil =>
    obtain rfl := List.length_eq_zero_iff.mp hlen
    exact ⟨rfl, rfl⟩
  | cons ws positions ih =>
    rw [wordCount, List.map_cons, List.sum_cons, ← wordCount] at hlen
    have htake : (lines.take ws.length).length = ws.length := by
      rw [List.length_take]
      omega
    have hdrop : (lines.drop ws.length).length = wordCount positions := by
      rw [List.length_drop]
      omega
    obtain ⟨hcmd, hstr⟩ := attach_spec htake
    obtain ⟨hcmds, hstrs⟩ := ih hdrop
    constructor
    · rw [describe, List.map_cons, hcmd, hcmds]
    · rw [describe, List.flatten_cons, List.map_append, hstr, hstrs, ← List.map_append,
        List.take_append_drop]

end

/-- `cmd_make_descvec` undoes the printing of a template: one list for each position, with its
words, and the help lines attached to the words in order. It ends on every template and help
text. -/
theorem makeDescvec_print :
    (∀ (positions : List (List Str)) (lines : List Str), positions ≠ [] →
      (∀ ws ∈ positions, ws ≠ [] ∧ ∀ w ∈ ws, IsTemplateWord w) →
      (∀ line ∈ lines, IsHelpLine line) → lines.length = wordCount positions →
      ∃ fuel allvec,
        makeDescvecRounds fuel (printTemplate positions) (printHelp lines) = some (some allvec) ∧
        allvec.map (·.map Desc.cmd) = positions ∧
        allvec.flatten.map Desc.str = lines.map some) ∧
    ∀ string descstr : Str, ∃ fuel, (makeDescvecRounds fuel string descstr).isSome = true := by
  refine ⟨fun positions lines hne hpositions hlines hlen => ?_, fun string descstr => ?_⟩
  · obtain ⟨hcmd, hstr⟩ := describe_spec hlen
    have hparses : Parses ⟨0, [], [] ++ printTemplate positions, printHelp lines⟩
        (some ([] ++ describe positions lines)) :=
      parses_template hne hpositions hlines hlen .start (helpAt_printHelp hlines)
    exact ⟨_, describe positions lines, hparses, hcmd, hstr⟩
  · exact ⟨string.length + 1, descvecRounds_isSome (Nat.lt_succ_self string.length)⟩

/-- A position with two words. -/
theorem makeDescvec_print_show :
    ∃ fuel allvec,
      makeDescvecRounds fuel (printTemplate [[str "show"], [str "wg", str "ip"]])
        (printHelp [str "Show", str "Tunnel", str "Address"]) = some (some allvec) ∧
      allvec.map (·.map Desc.cmd) = [[str "show"], [str "wg", str "ip"]] ∧
      allvec.flatten.map Desc.str = [some (str "Show"), some (str "Tunnel"), some (str "Address")] := by
  have hword : ∀ w : Str, w ≠ [] →
      w.all (fun c => !isspace c && c != '(' && c != ')' && c != '|') = true →
      IsTemplateWord w := by
    intro w hne hall
    refine ⟨hne, fun c hc => ?_⟩
    have hplain := List.all_eq_true.mp hall c hc
    simp only [Bool.and_eq_true, bne_iff_ne, Bool.not_eq_true'] at hplain
    obtain ⟨⟨⟨hspace, hopen⟩, hclose⟩, hbar⟩ := hplain
    exact ⟨hspace, hopen, hclose, hbar⟩
  have hline : ∀ line : Str, line.all (fun c => !endsLine c) = true →
      ∀ c ∈ line, endsLine c = false := by
    intro line hall c hc
    simpa using List.all_eq_true.mp hall c hc
  refine makeDescvec_print.1 _ _ (by decide) ?_ ?_ (by decide)
  · intro ws hws
    simp only [List.mem_cons, List.not_mem_nil, or_false] at hws
    rcases hws with rfl | rfl
    · refine ⟨by decide, fun w hw => ?_⟩
      rw [List.mem_singleton.mp hw]
      exact hword _ (by decide) (by decide)
    · refine ⟨by decide, fun w hw => ?_⟩
      simp only [List.mem_cons, List.not_mem_nil, or_false] at hw
      rcases hw with rfl | rfl
      · exact hword _ (by decide) (by decide)
      · exact hword _ (by decide) (by decide)
  · intro line hmem
    simp only [List.mem_cons, List.not_mem_nil, or_false] at hmem
    rcases hmem with rfl | rfl | rfl
    · exact ⟨⟨'S', rfl, rfl⟩, hline _ (by decide)⟩
    · exact ⟨⟨'T', rfl, rfl⟩, hline _ (by decide)⟩
    · exact ⟨⟨'A', rfl, rfl⟩, hline _ (by decide)⟩

end QrWireguard.Vtysh
