import QrWireguard.Vtysh.Quoted

/-!
# The commands about a peer, as typed

What `cmd_execute_command` makes of the lines that the agents build. Behind their keywords the
commands left agree on the alternatives of each position, so a word decides nothing but whether it
is taken.
-/

namespace QrWireguard.Vtysh

variable {F : Type}

/-! ## One position -/

/-- The alternatives of a position take a word without doubt, best with this match type. -/
structure Settles (filter : Filter) (word : Str) (type : MatchType) (descvec : List Str) :
    Prop where
  kind : type ≠ .varargMatch
  best : ∀ s ∈ descvec, ∀ m, descMatch filter word s = some m → m.rank ≤ type.rank
  taken : ∃ s ∈ descvec, descMatch filter word s = some type
  counted : ∃ s ∈ descvec, (ambiguousVote word type s).counts = true
  clear : Clear word type none descvec

section
variable {filter : Filter} {word s k : Str} {type m : MatchType} {index : Nat}
  {descvec : List Str} {v : List (Option (CmdElement F))} {vline : List Str}

/-- The match type is raised to the greatest one there is. -/
theorem foldl_raise_eq {l : List MatchType} (hm : m.rank ≤ type.rank)
    (hall : ∀ n ∈ l, n.rank ≤ type.rank) (htype : m = type ∨ type ∈ l) :
    l.foldl MatchType.raise m = type := by
  induction l generalizing m with
  | nil => simpa using htype
  | cons n l ih =>
    have hn : n.rank ≤ type.rank := hall n List.mem_cons_self
    rw [List.foldl_cons]
    apply ih (MatchType.rank_raise_le hm hn) fun n' hn' => hall n' (List.mem_cons_of_mem _ hn')
    rcases htype with rfl | htype
    · left
      unfold MatchType.raise
      rw [if_neg (by omega)]
    · rcases List.mem_cons.mp htype with rfl | hmem
      · exact .inl (MatchType.raise_of_rank_le hm)
      · exact .inr hmem

theorem settles_variable (s : Str) (hs : plainVariable s = true) :
    Settles filter word .extendMatch [s] := by
  have hmatch : descMatch filter word s = some .extendMatch := descMatch_of_plainVariable hs
  have hvote : ambiguousVote word .extendMatch s = .count := by
    simp only [plainVariable, Bool.and_eq_true] at hs
    simp [ambiguousVote, hs.2]
  refine ⟨by decide, ?_, ⟨s, by simp, hmatch⟩, ⟨s, by simp, by rw [hvote]; rfl⟩, s, by simp, ?_⟩
  · intro t ht m hm
    rw [List.mem_singleton.mp ht, hmatch] at hm
    rw [← Option.some.inj hm]
  · intro t ht
    rw [List.mem_singleton.mp ht, hvote]
    simp

/-- How a keyword is matched leniently. -/
theorem descMatch_completion (hk : plainKeyword k = true) (word : Str) :
    descMatch .byCompletion word k =
      if word.isPrefixOf k then (if word = k then some .exactMatch else some .partlyMatch)
      else none := by
  simp only [plainKeyword, plainAlternative, Bool.and_eq_true, Bool.not_eq_true', bne_iff_ne,
    ne_eq] at hk
  obtain ⟨⟨⟨⟨⟨⟨h₁, h₂⟩, h₃⟩, h₄⟩, h₅⟩, h₆⟩, hvalue⟩ := hk
  unfold descMatch
  rw [if_neg (by simp [h₁]), if_neg (by simp [h₂]), if_neg h₃, if_neg h₄, if_neg h₅, if_neg h₆,
    if_neg (by simp [hvalue])]

/-- A keyword and variables take every word. -/
theorem settles_choice (hk : plainKeyword k = true) (hmem : k ∈ descvec)
    (hall : ∀ t ∈ descvec, t = k ∨ plainVariable t = true)
    (hvariable : ∃ t ∈ descvec, plainVariable t = true) (word : Str) :
    ∃ type, Settles .byCompletion word type descvec := by
  have hvalue : (cmdOption k || cmdVariable k) = false := by
    simpa [plainKeyword] using (Bool.and_eq_true_iff.mp hk).2
  have hvar : ∀ t, plainVariable t = true → (cmdOption t || cmdVariable t) = true := fun t ht =>
    (Bool.and_eq_true_iff.mp ht).2
  have hmatch := descMatch_completion hk word
  have hvmatch : ∀ t, plainVariable t = true →
      descMatch .byCompletion word t = some .extendMatch := fun t ht =>
    descMatch_of_plainVariable ht
  by_cases hprefix : word.isPrefixOf k = true
  · rw [if_pos hprefix] at hmatch
    by_cases hexact : word = k
    · rw [if_pos hexact] at hmatch
      have hvote : ambiguousVote word .exactMatch k = .count := by
        simp [ambiguousVote, hvalue, hexact]
      refine ⟨.exactMatch, by decide, ?_, ⟨k, hmem, hmatch⟩, ⟨k, hmem, by rw [hvote]; rfl⟩, k,
        by simp, ?_⟩
      · intro t ht m hm
        rcases hall t ht with rfl | hplain
        · rw [hmatch] at hm
          rw [← Option.some.inj hm]
        · rw [hvmatch t hplain] at hm
          rw [← Option.some.inj hm]
          decide
      · intro t ht
        rcases hall t ht with rfl | hplain
        · simp [hvote]
        · simp [ambiguousVote, hvar t hplain]
    · rw [if_neg hexact] at hmatch
      have hvote : ambiguousVote word .partlyMatch k = .name := by
        simp [ambiguousVote, hvalue, hprefix]
      refine ⟨.partlyMatch, by decide, ?_, ⟨k, hmem, hmatch⟩, ⟨k, hmem, by rw [hvote]; rfl⟩, k,
        by simp, ?_⟩
      · intro t ht m hm
        rcases hall t ht with rfl | hplain
        · rw [hmatch] at hm
          rw [← Option.some.inj hm]
        · rw [hvmatch t hplain] at hm
          rw [← Option.some.inj hm]
          decide
      · intro t ht
        rcases hall t ht with rfl | hplain
        · simp [hvote]
        · simp [ambiguousVote, hvar t hplain]
  · rw [if_neg hprefix] at hmatch
    obtain ⟨u, hu, huplain⟩ := hvariable
    have hvote : ∀ t, plainVariable t = true → ambiguousVote word .extendMatch t = .count := by
      intro t ht
      simp [ambiguousVote, hvar t ht]
    refine ⟨.extendMatch, by decide, ?_, ⟨u, hu, hvmatch u huplain⟩,
      ⟨u, hu, by rw [hvote u huplain]; rfl⟩, k, by simp, ?_⟩
    · intro t ht m hm
      rcases hall t ht with rfl | hplain
      · rw [hmatch] at hm
        cases hm
      · rw [hvmatch t hplain] at hm
        rw [← Option.some.inj hm]
    · intro t ht
      rcases hall t ht with rfl | hplain
      · simp [ambiguousVote, hvalue]
      · simp [hvote t hplain]

theorem settles_keyword (hk : plainKeyword k = true) :
    Settles .byCompletion k .exactMatch [k] := by
  have hvalue : (cmdOption k || cmdVariable k) = false := by
    simpa [plainKeyword] using (Bool.and_eq_true_iff.mp hk).2
  have hmatch := descMatch_completion hk k
  rw [if_pos (List.isPrefixOf_iff_prefix.mpr List.prefix_rfl), if_pos rfl] at hmatch
  have hvote : ambiguousVote k .exactMatch k = .count := by simp [ambiguousVote, hvalue]
  refine ⟨by decide, ?_, ⟨k, by simp, hmatch⟩, ⟨k, by simp, by rw [hvote]; rfl⟩, k, by simp, ?_⟩
  · intro t ht m hm
    rw [List.mem_singleton.mp ht, hmatch] at hm
    rw [← Option.some.inj hm]
  · intro t ht
    rw [List.mem_singleton.mp ht, hvote]
    simp

end

/-! ## The commands that the words leave -/

/-- After these words these commands are left. -/
def LeftBy (filter : Filter) (cmdVector : List (CmdElement F)) (read : List Str)
    (xs : List (CmdElement F)) : Prop :=
  ∀ vline, ∃ v, v.reduceOption = xs ∧
    filterWords filter 0 (cmdVector.map some) (read ++ vline) =
      filterWords filter read.length v vline

section
variable {filter : Filter} {cmdVector xs ys : List (CmdElement F)} {read argv : List Str}
  {word : Str} {type : MatchType} {descvec : List Str} {e : CmdElement F}

theorem leftBy_nil : LeftBy filter cmdVector [] cmdVector := fun _ =>
  ⟨cmdVector.map some, reduceOption_map_some cmdVector, rfl⟩

/-- One word more. -/
theorem LeftBy.step (h : LeftBy filter cmdVector read xs)
    (hbest : bestMatch filter word read.length (xs.map some) = type) (htype : type ≠ .varargMatch)
    (hleft : leftOf filter word read.length type (xs.map some) = ys)
    (hclear : Clear word type none (ys.flatMap fun e => e.alternatives read.length)) :
    LeftBy filter cmdVector (read ++ [word]) ys := by
  intro vline
  obtain ⟨v, rfl, hv⟩ := h (word :: vline)
  have hsame : (v.reduceOption.map some).reduceOption = v.reduceOption := reduceOption_map_some _
  have hbest : bestMatch filter word read.length v = type := by
    rw [← hbest, bestMatch_eq, bestMatch_eq, matchTypes, matchTypes, hsame]
  have hleft : leftOf filter word read.length type v = ys := by
    rw [← hleft, leftOf, leftOf, hsame]
  obtain ⟨v', hv'⟩ := isOk_iff_clear_left.mpr (by rw [hleft]; exact hclear)
  refine ⟨v', (reduceOption_left hv').trans hleft, ?_⟩
  rw [List.append_assoc, List.singleton_append, hv, filterWords_cons, hbest, if_neg htype, hv',
    List.length_append, List.length_singleton]

/-- A word that is a keyword of the commands left. -/
theorem LeftBy.keyword (h : LeftBy filter cmdVector read xs)
    (hbest : bestMatch filter word read.length (xs.map some) = .exactMatch)
    (hleft : leftOf filter word read.length .exactMatch (xs.map some) = ys) :
    LeftBy filter cmdVector (read ++ [word]) ys := by
  refine h.step hbest (by decide) hleft ⟨word, by simp, fun s _ => ?_⟩
  simp only [ambiguousVote]
  split <;> simp

/-- At a position at which the commands have the same alternatives, or end, those that go on are
left. -/
theorem LeftBy.settles (h : LeftBy filter cmdVector read xs) (index : Nat)
    (hindex : read.length = index) (hsettles : Settles filter word type descvec)
    (hagree : ∀ x ∈ xs, x.alternatives index = [] ∨
      x.alternatives index ⊆ descvec ∧ descvec ⊆ x.alternatives index)
    (hleft : xs.filter (fun x => !(x.alternatives index).isEmpty) = ys) (hne : ys ≠ []) :
    LeftBy filter cmdVector (read ++ [word]) ys := by
  subst hindex
  have hsame : ∀ x ∈ ys, x ∈ xs ∧ x.alternatives read.length ⊆ descvec ∧
      descvec ⊆ x.alternatives read.length := by
    intro x hx
    obtain ⟨hmem, hgoes⟩ := List.mem_filter.mp (hleft ▸ hx)
    refine ⟨hmem, (hagree x hmem).resolve_left fun hnil => ?_⟩
    rw [hnil] at hgoes
    cases hgoes
  obtain ⟨x, hx⟩ := List.exists_mem_of_ne_nil ys hne
  have hbest : bestMatch filter word read.length (xs.map some) = type := by
    rw [bestMatch_eq]
    apply foldl_raise_eq (by cases type <;> decide)
    · intro n hn
      obtain ⟨y, hy, s, hs, hmatch⟩ := mem_matchTypes.mp hn
      rcases hagree y (by simpa using hy) with hnil | ⟨hsub, -⟩
      · rw [hnil] at hs
        cases hs
      · exact hsettles.best s (hsub hs) n hmatch
    · obtain ⟨s, hs, hmatch⟩ := hsettles.taken
      exact .inr (mem_matchTypes.mpr
        ⟨x, List.mem_map_of_mem (hsame x hx).1, s, (hsame x hx).2.2 hs, hmatch⟩)
  have hkeeps : ∀ y ∈ xs, (y.counts word read.length type && y.takes filter word read.length) =
      !(y.alternatives read.length).isEmpty := by
    intro y hy
    rcases hagree y hy with hnil | ⟨-, hsub⟩
    · simp [CmdElement.counts, CmdElement.takes, hnil]
    · obtain ⟨s, hs, hcounts⟩ := hsettles.counted
      obtain ⟨t, ht, hmatch⟩ := hsettles.taken
      have hgoes : (!(y.alternatives read.length).isEmpty) = true := by
        simpa using List.ne_nil_of_mem (hsub hs)
      rw [hgoes, Bool.and_eq_true]
      exact ⟨List.any_eq_true.mpr ⟨s, hsub hs, hcounts⟩,
        List.any_eq_true.mpr ⟨t, hsub ht, by rw [hmatch]; rfl⟩⟩
  refine h.step hbest hsettles.kind ?_ (hsettles.clear.mono fun s hs => ?_)
  · rw [leftOf, reduceOption_map_some, List.filter_congr hkeeps, hleft]
  · obtain ⟨y, hy, hs⟩ := List.mem_flatMap.mp hs
    exact (hsame y hy).2.1 hs

/-- The line stands for the one command that it leaves complete. -/
theorem LeftBy.run (h : LeftBy filter cmdVector read xs)
    (hcomplete : xs.filter (fun x => decide (x.cmdsize ≤ read.length)) = [e])
    (hargv : bindArgs e.strvec false [] read = some (.ok argv)) :
    cmdLookup filter cmdVector read = .run e argv := by
  obtain ⟨v, rfl, hv⟩ := h []
  rw [List.append_nil] at hv
  unfold cmdLookup
  rw [hv, filterWords]
  dsimp only
  simp only [Bool.false_or]
  rw [hcomplete]
  dsimp only
  rw [hargv]

end

/-! ## The commands about a peer -/

/-- The element of `wg_peer_public_key`. -/
def peerPublicKeyElement : CmdElement CmdFunc :=
  entry wgPeerPublicKeyCmd [str "wg", str "peer"] [[str "PUBLICKEY"]]

/-- The element of `wg_peer_allowed_ips`. -/
def peerAllowedIpsElement : CmdElement CmdFunc :=
  entry wgPeerAllowedIpsCmd [str "wg", str "peer"]
    [[str "PUBLICKEY"], [str "allowed-ips"], [str "WORD"]]

/-- The element of `wg_peer_endpoint`. -/
def peerEndpointElement : CmdElement CmdFunc :=
  entry wgPeerEndpointCmd [str "wg", str "peer"]
    [[str "PUBLICKEY"], [str "allowed-ips"], [str "WORD"], [str "endpoint"],
      [str "A.B.C.D:PORT", str "FQDN:PORT", str "none"]]

/-- The element of `wg_peer_persistent_keepalive`. -/
def peerKeepaliveElement : CmdElement CmdFunc :=
  entry wgPeerPersistentKeepaliveCmd [str "wg", str "peer"]
    [[str "PUBLICKEY"], [str "allowed-ips"], [str "WORD"], [str "endpoint"],
      [str "none", str "FQDN:PORT", str "A.B.C.D:PORT"], [str "persistent-keepalive"],
      [str "NUM", str "off"]]

/-- The element of `no_wg_peer`. -/
def noPeerElement : CmdElement CmdFunc :=
  entry noWgPeerCmd [str "no", str "wg", str "peer"] [[str "PUBLICKEY"]]

theorem leftBy_wg_peer : LeftBy .byCompletion (cmdNodeVector .config) [str "wg", str "peer"]
    [peerPublicKeyElement, peerAllowedIpsElement, peerEndpointElement, peerKeepaliveElement] := by
  have hwg : LeftBy .byCompletion (cmdNodeVector .config) [str "wg"]
      (leftOf .byCompletion (str "wg") 0 .exactMatch ((cmdNodeVector .config).map some)) :=
    leftBy_nil.keyword (by decide +kernel) rfl
  exact hwg.keyword (by decide +kernel) (by decide +kernel)

theorem leftBy_no_wg_peer : LeftBy .byCompletion (cmdNodeVector .config)
    [str "no", str "wg", str "peer"] [noPeerElement] := by
  have hno : LeftBy .byCompletion (cmdNodeVector .config) [str "no"]
      (leftOf .byCompletion (str "no") 0 .exactMatch ((cmdNodeVector .config).map some)) :=
    leftBy_nil.keyword (by decide +kernel) rfl
  have hwg : LeftBy .byCompletion (cmdNodeVector .config) [str "no", str "wg"] [noPeerElement] :=
    hno.keyword (by decide +kernel) (by decide +kernel)
  exact hwg.keyword (by decide +kernel) (by decide +kernel)

/-- The command line for a peer stands for its command with its words. -/
theorem cmdLookup_peerKeepalive (key allowedIps endpoint keepalive : Str) :
    cmdLookup .byCompletion (cmdNodeVector .config) [str "wg", str "peer", key, str "allowed-ips",
        allowedIps, str "endpoint", endpoint, str "persistent-keepalive", keepalive] =
      .run peerKeepaliveElement [key, allowedIps, endpoint, keepalive] := by
  have hkeyword : ∀ k ∈ [str "allowed-ips", str "endpoint", str "persistent-keepalive"],
      Settles .byCompletion k .exactMatch [k] := by
    intro k hk
    apply settles_keyword
    revert k
    decide
  have hchoice : ∀ word, ∃ type, Settles .byCompletion word type
      [str "none", str "FQDN:PORT", str "A.B.C.D:PORT"] := by
    apply settles_choice (by decide : plainKeyword (str "none") = true) <;> decide
  have hinterval : ∀ word, ∃ type, Settles .byCompletion word type [str "NUM", str "off"] := by
    apply settles_choice (by decide : plainKeyword (str "off") = true) <;> decide
  obtain ⟨choice, hchoice⟩ := hchoice endpoint
  obtain ⟨interval, hinterval⟩ := hinterval keepalive
  have hkey : LeftBy .byCompletion (cmdNodeVector .config) [str "wg", str "peer", key]
      [peerPublicKeyElement, peerAllowedIpsElement, peerEndpointElement, peerKeepaliveElement] :=
    leftBy_wg_peer.settles 2 rfl (settles_variable (str "PUBLICKEY") (by decide)) (by decide) rfl
      (by decide)
  have hallowed : LeftBy .byCompletion (cmdNodeVector .config)
      [str "wg", str "peer", key, str "allowed-ips"]
      [peerAllowedIpsElement, peerEndpointElement, peerKeepaliveElement] :=
    hkey.settles 3 rfl (hkeyword (str "allowed-ips") (by decide)) (by decide) rfl (by decide)
  have hips : LeftBy .byCompletion (cmdNodeVector .config)
      [str "wg", str "peer", key, str "allowed-ips", allowedIps]
      [peerAllowedIpsElement, peerEndpointElement, peerKeepaliveElement] :=
    hallowed.settles 4 rfl (settles_variable (str "WORD") (by decide)) (by decide) rfl (by decide)
  have hend : LeftBy .byCompletion (cmdNodeVector .config)
      [str "wg", str "peer", key, str "allowed-ips", allowedIps, str "endpoint"]
      [peerEndpointElement, peerKeepaliveElement] :=
    hips.settles 5 rfl (hkeyword (str "endpoint") (by decide)) (by decide) rfl (by decide)
  have hendpoint : LeftBy .byCompletion (cmdNodeVector .config)
      [str "wg", str "peer", key, str "allowed-ips", allowedIps, str "endpoint", endpoint]
      [peerEndpointElement, peerKeepaliveElement] :=
    hend.settles 6 rfl hchoice (by decide) rfl (by decide)
  have hkeep : LeftBy .byCompletion (cmdNodeVector .config)
      [str "wg", str "peer", key, str "allowed-ips", allowedIps, str "endpoint", endpoint,
        str "persistent-keepalive"] [peerKeepaliveElement] :=
    hendpoint.settles 7 rfl (hkeyword (str "persistent-keepalive") (by decide)) (by decide) rfl
      (by decide)
  have hline : LeftBy .byCompletion (cmdNodeVector .config)
      [str "wg", str "peer", key, str "allowed-ips", allowedIps, str "endpoint", endpoint,
        str "persistent-keepalive", keepalive] [peerKeepaliveElement] :=
    hkeep.settles 8 rfl hinterval (by decide) rfl (by decide)
  exact hline.run rfl rfl

/-- And so does the one that removes it. -/
theorem cmdLookup_noPeer (key : Str) :
    cmdLookup .byCompletion (cmdNodeVector .config) [str "no", str "wg", str "peer", key] =
      .run noPeerElement [key] := by
  have hline : LeftBy .byCompletion (cmdNodeVector .config)
      [str "no", str "wg", str "peer", key] [noPeerElement] :=
    leftBy_no_wg_peer.settles 3 rfl (settles_variable (str "PUBLICKEY") (by decide)) (by decide) rfl
      (by decide)
  exact hline.run rfl rfl

end QrWireguard.Vtysh
