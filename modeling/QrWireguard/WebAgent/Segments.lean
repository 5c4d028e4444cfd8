import QrWireguard.WebAgent.Malformed

/-!
# Requests in pieces

The C++ agent takes what one `recv` returns for a whole request: nothing in a request says how
long it is. A request that arrives in pieces is handled as that many requests, so that the agent
does what it does with the whole text only when it goes down soon enough.
-/

namespace QrWireguard.WebAgent.Cpp

/-- `receivedMessage`, a local array that is never initialised. -/
abbrev Buffer := Vector Char maxPacketSize

/-- What the buffer holds after a `recv` of these bytes. -/
def Buffer.recv (receivedMessage : Buffer) (data : Str) : Str :=
  data ++ receivedMessage.toList.drop data.length

/-- The loop of `Client::receiveTask` over the bytes that the calls of `recv` return: the requests
it handles before the connection is closed or the agent goes down. Before the `i`-th call the
buffer holds whatever `receivedMessage i` is. -/
def receiveTask (receivedMessage : Nat → Buffer) (i : Nat) : List Str → List Handled
  | [] => []
  | data :: rest =>
    if data = [] then []
    else match onIncomingMsg ((receivedMessage i).recv data) with
      | .error _ => []
      | .ok handled => handled :: receiveTask receivedMessage (i + 1) rest

/-- Nothing shows that the text came in pieces: there is one piece at most, or the text and its
first piece take the agent down alike, or the first piece is handled as the text would be and the
second takes the agent down. -/
inductive Unnoticed (receivedMessage : Nat → Buffer) (text : Str) : List Str → Prop
  | whole {pieces : List Str} (h : pieces.length ≤ 1) : Unnoticed receivedMessage text pieces
  | down {first second : Str} {rest : List Str}
      (htext : ¬ WellFormed ((receivedMessage 0).recv text))
      (hfirst : ¬ WellFormed ((receivedMessage 0).recv first)) :
      Unnoticed receivedMessage text (first :: second :: rest)
  | answered {first second : Str} {rest : List Str}
      (htext : WellFormed ((receivedMessage 0).recv text))
      (hfirst : onIncomingMsg ((receivedMessage 0).recv first) =
        onIncomingMsg ((receivedMessage 0).recv text))
      (hsecond : ¬ WellFormed ((receivedMessage 1).recv second)) :
      Unnoticed receivedMessage text (first :: second :: rest)

section
variable {receivedMessage : Nat → Buffer} {i : Nat} {data text : Str} {pieces rest : List Str}
  {handled : Handled}

theorem receiveTask_down (h : ¬ WellFormed ((receivedMessage i).recv data)) :
    receiveTask receivedMessage i (data :: rest) = [] := by
  unfold receiveTask
  split_ifs
  · rfl
  · cases hmsg : onIncomingMsg ((receivedMessage i).recv data) with
    | error fault => rfl
    | ok handled => exact absurd (onIncomingMsg_isOk.mp ⟨handled, hmsg⟩) h

theorem receiveTask_ok (hdata : data ≠ [])
    (h : onIncomingMsg ((receivedMessage i).recv data) = .ok handled) :
    receiveTask receivedMessage i (data :: rest) =
      handled :: receiveTask receivedMessage (i + 1) rest := by
  rw [receiveTask, if_neg hdata, h]

/-- The loop handles nothing just when the first piece takes the agent down. -/
theorem receiveTask_eq_nil (hdata : data ≠ []) :
    receiveTask receivedMessage i (data :: rest) = [] ↔
      ¬ WellFormed ((receivedMessage i).recv data) := by
  constructor
  · intro h hwell
    obtain ⟨handled, hmsg⟩ := onIncomingMsg_isOk.mpr hwell
    rw [receiveTask_ok hdata hmsg] at h
    cases h
  · exact receiveTask_down

/-- A request that arrives in pieces is handled as it is in one piece exactly when that goes
unnoticed. -/
theorem receiveTask_pieces (hcut : pieces.flatten = text) (hne : ∀ piece ∈ pieces, piece ≠ []) :
    receiveTask receivedMessage 0 pieces = receiveTask receivedMessage 0 [text] ↔
      Unnoticed receivedMessage text pieces := by
  match pieces, hcut, hne with
  | [], hcut, hne =>
    obtain rfl : text = [] := by simpa using hcut.symm
    exact iff_of_true (by simp [receiveTask]) (.whole (by simp))
  | [piece], hcut, hne =>
    obtain rfl : text = piece := by simpa using hcut.symm
    exact iff_of_true rfl (.whole (by simp))
  | first :: second :: rest, hcut, hne =>
    have hfirst : first ≠ [] := hne first (by simp)
    have hsecond : second ≠ [] := hne second (by simp)
    have htext : text ≠ [] := by
      rintro rfl
      simp [hfirst] at hcut
    have hmany : ¬ (first :: second :: rest).length ≤ 1 := by simp
    by_cases hwell : WellFormed ((receivedMessage 0).recv text)
    · obtain ⟨handled, hmsg⟩ := onIncomingMsg_isOk.mpr hwell
      rw [receiveTask_ok htext hmsg]
      by_cases hwell' : WellFormed ((receivedMessage 0).recv first)
      · obtain ⟨handled', hmsg'⟩ := onIncomingMsg_isOk.mpr hwell'
        rw [receiveTask_ok hfirst hmsg', List.cons.injEq]
        change _ ∧ receiveTask receivedMessage 1 (second :: rest) = [] ↔ _
        rw [receiveTask_eq_nil hsecond]
        constructor
        · rintro ⟨rfl, hdown⟩
          exact .answered hwell (hmsg'.trans hmsg.symm) hdown
        · rintro (h | ⟨hnot, -⟩ | ⟨-, hsame, hdown⟩)
          · exact absurd h hmany
          · exact absurd hwell hnot
          · rw [hmsg, hmsg'] at hsame
            exact ⟨Except.ok.inj hsame, hdown⟩
      · rw [receiveTask_down hwell']
        refine iff_of_false (List.cons_ne_nil _ _).symm ?_
        rintro (h | ⟨hnot, -⟩ | ⟨-, hsame, -⟩)
        · exact hmany h
        · exact hnot hwell
        · exact hwell' (onIncomingMsg_isOk.mp ⟨handled, hsame.trans hmsg⟩)
    · rw [receiveTask_down hwell, receiveTask_eq_nil hfirst]
      constructor
      · exact fun hdown => .down hwell hdown
      · rintro (h | ⟨-, hdown⟩ | ⟨hnot, -⟩)
        · exact absurd h hmany
        · exact hdown
        · exact absurd hnot hwell

end

/-! ## A buffer of zeros -/

/-- An uninitialised buffer may hold zeros. -/
def zeros : Buffer := Vector.replicate maxPacketSize '\x00'

/-- Over zeros a text is read as it is. -/
theorem onIncomingMsg_zeros {data : Str} (hlen : data.length < maxPacketSize)
    (hnul : '\x00' ∉ data) : onIncomingMsg (zeros.recv data) = onIncomingMsg data := by
  have hrecv : cstr (zeros.recv data) = data := by
    obtain ⟨n, hn⟩ : ∃ n, maxPacketSize - data.length = n + 1 :=
      ⟨_, (Nat.sub_add_cancel (by omega)).symm⟩
    rw [Buffer.recv, zeros, Vector.toList_replicate, List.drop_replicate, hn, List.replicate_succ]
    exact cstr_append_nul hnul
  have hlength : (zeros.recv data).length = maxPacketSize := by
    simp only [Buffer.recv, List.length_append, List.length_drop, Vector.length_toList]
    omega
  have hfits : ¬ (maxPacketSize < data.length ∨ maxPacketSize ≤ data.length) := by omega
  have hfits' : ¬ (maxPacketSize < maxPacketSize ∨ maxPacketSize ≤ data.length) := by omega
  rw [onIncomingMsg, onIncomingMsg, hrecv, cstr_of_not_mem hnul, hlength, if_neg hfits,
    if_neg hfits']

theorem not_wellFormed_zeros {data : Str} (hlen : data.length < maxPacketSize)
    (hnul : '\x00' ∉ data) (h : (onIncomingMsg data).toOption = none) :
    ¬ WellFormed (zeros.recv data) := by
  intro hwell
  obtain ⟨handled, hmsg⟩ := onIncomingMsg_isOk.mpr hwell
  rw [onIncomingMsg_zeros hlen hnul] at hmsg
  rw [hmsg] at h
  cases h

/-- A request without a second line takes the agent down, in one piece or in two. -/
theorem receiveTask_pieces_down :
    receiveTask (fun _ => zeros) 0 [str "cmd:", str "=HELLO\n"] =
      receiveTask (fun _ => zeros) 0 [str "cmd:=HELLO\n"] :=
  (receiveTask_pieces (by decide) (by decide)).mpr
    (.down (not_wellFormed_zeros (by decide) (by decide) (by decide))
      (not_wellFormed_zeros (by decide) (by decide) (by decide)))

/-- A request for which `vtysh` runs in one piece takes the agent down when it is cut behind its
first line. -/
theorem not_receiveTask_pieces : ¬ ∀ (receivedMessage : Nat → Buffer) (text : Str)
    (pieces : List Str),
    text.length < maxPacketSize → pieces.flatten = text → (∀ piece ∈ pieces, piece ≠ []) →
    receiveTask receivedMessage 0 pieces = receiveTask receivedMessage 0 [text] := by
  intro h
  have hsame := h (fun _ => zeros)
    (str "cmd:=HELLO\nsubcmd:=NO_SET_WIREGUARD_INTERFACE\nfield_count:=0\n")
    [str "cmd:=HELLO\n", str "subcmd:=NO_SET_WIREGUARD_INTERFACE\nfield_count:=0\n"]
    (by decide) (by decide) (by decide)
  have hmsg : onIncomingMsg (zeros.recv
      (str "cmd:=HELLO\nsubcmd:=NO_SET_WIREGUARD_INTERFACE\nfield_count:=0\n")) =
      .ok ⟨true, [str "/usr/bin/qrwg/vtysh -e \"no ip address wg0\"",
        str "/usr/bin/qrwg/vtysh -e \"write\""]⟩ := by
    rw [onIncomingMsg_zeros (by decide) (by decide)]
    decide +kernel
  have hdown : ¬ WellFormed (zeros.recv (str "cmd:=HELLO\n")) :=
    not_wellFormed_zeros (by decide) (by decide) (by decide)
  have hwell := (receiveTask_eq_nil (by decide +kernel)).mp (hsame ▸ receiveTask_down hdown)
  exact hwell (onIncomingMsg_isOk.mp ⟨_, hmsg⟩)

end QrWireguard.WebAgent.Cpp
