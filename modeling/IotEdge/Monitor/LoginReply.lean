import Mathlib.Data.List.Basic
import Mathlib.Data.List.GetD
import Mathlib.Tactic.ByContra

/-!
# The reply to a login request

The server answers a login request with one packed `login_st`.
`Widget::socketReadyReadSlot` runs whenever bytes arrive, reads what is there into a
local structure, and looks at the last byte of the structure.  It does not look at how
much it read, and the rest of the structure is what the stack happened to hold.

So the slot acts on the reply just when the reply arrives in one piece
(`login_reply_iff`).  Otherwise it acts on bytes that nobody sent.
-/

namespace IotEdge.LoginReply

/-- `CNTSIZE`. -/
abbrev cntSize : Nat := 64

/-- `PWDSIZE`. -/
abbrev pwdSize : Nat := 512

/-- `LOGIN_SUCCESS`. -/
def loginSuccess : UInt8 := 0

/-- `LOGIN_COUNT_NO_EXIST`. -/
def loginCountNoExist : UInt8 := 1

/-- `LOGIN_ERROR_PASSWD`. -/
def loginErrorPasswd : UInt8 := 2

/-- `login_st`. -/
structure LoginSt where
  count : Vector UInt8 cntSize
  passwd : Vector UInt8 pwdSize
  loginState : UInt8

/-- The packed structure. -/
def LoginSt.bytes (st : LoginSt) : List UInt8 :=
  st.count.toList ++ st.passwd.toList ++ [st.loginState]

/-- The offset of `login_state`. -/
abbrev stateOffset : Nat := cntSize + pwdSize

/-- The memory of a local `login_st`. -/
abbrev Memory := Vector UInt8 (stateOffset + 1)

/-- What the slot does. -/
inductive Action where
  /-- It says that the login succeeded and opens the main window. -/
  | mainWindow
  /-- It says that the password is wrong, and clears the field. -/
  | wrongPasswd
  /-- It says that the account does not exist. -/
  | noAccount
deriving DecidableEq, Repr

/-- The `switch` of the slot. -/
def switchState (loginState : UInt8) : Option Action :=
  if loginState = loginSuccess then some .mainWindow
  else if loginState = loginErrorPasswd then some .wrongPasswd
  else if loginState = loginCountNoExist then some .noAccount
  else none

/-- `QTcpSocket::read`: as much as there is, up to the size of the memory.  The rest of
the memory does not change. -/
def read (available : List UInt8) (buf : Memory) : Memory :=
  Vector.ofFn fun i => available.getD i buf[i]

/-- The bytes that were received and not read, and what the slot did so far. -/
structure State where
  /-- The receive buffer of the socket. -/
  available : List UInt8
  /-- What the slot did. -/
  actions : List Action

/-- `Widget::socketReadyReadSlot`, with `buf` as it is found on the stack. -/
def socketReadyReadSlot (s : State) (buf : Memory) : State :=
  ⟨s.available.drop (stateOffset + 1),
    s.actions ++ (switchState (read s.available buf)[stateOffset]).toList⟩

/-- Bytes arrive, and the slot runs. -/
def deliver (s : State) (d : List UInt8 × Memory) : State :=
  socketReadyReadSlot { s with available := s.available ++ d.1 } d.2

/-- What the slot does when the bytes arrive in these pieces.  With each piece comes what
the slot finds on the stack. -/
def acts (pieces : List (List UInt8 × Memory)) : List Action :=
  (pieces.foldl deliver ⟨[], []⟩).actions

/-- The slot opens the main window just when the reply says success, and acts once. -/
def ActsOn (reply : LoginSt) (actions : List Action) : Prop :=
  (.mainWindow ∈ actions ↔ reply.loginState = loginSuccess) ∧
    actions = (switchState reply.loginState).toList

/-! ## One run of the slot -/

theorem length_bytes (st : LoginSt) : st.bytes.length = stateOffset + 1 := by
  simp [LoginSt.bytes, stateOffset, Nat.add_assoc]

theorem getD_bytes (st : LoginSt) (b : UInt8) : st.bytes.getD stateOffset b = st.loginState := by
  have hlength : (st.count.toList ++ st.passwd.toList).length = stateOffset := by simp
  rw [LoginSt.bytes, ← hlength, List.getD_append_right _ _ _ _ (Nat.le_refl _), Nat.sub_self]
  rfl

theorem mainWindow_mem_switchState {b : UInt8} :
    .mainWindow ∈ (switchState b).toList ↔ b = loginSuccess := by
  rw [switchState]
  split
  next h => simp [h]
  next h => split <;> (try split) <;> simp [h]

theorem getElem_read (available : List UInt8) (buf : Memory) :
    (read available buf)[stateOffset] = available.getD stateOffset buf[stateOffset] :=
  Vector.getElem_ofFn _

/-- A piece that is not longer than the structure is read as a whole. -/
theorem deliver_eq {actions : List Action} {d : List UInt8 × Memory}
    (h : d.1.length ≤ stateOffset + 1) : deliver ⟨[], actions⟩ d =
      ⟨[], actions ++ (switchState (d.1.getD stateOffset d.2[stateOffset])).toList⟩ := by
  rw [deliver, socketReadyReadSlot, getElem_read, List.nil_append, List.drop_eq_nil_of_le h]

/-- Short pieces leave the decision to the stack. -/
theorem foldl_deliver_of_short {pieces : List (List UInt8 × Memory)}
    (h : ∀ d ∈ pieces, d.1.length ≤ stateOffset) (actions : List Action) :
    pieces.foldl deliver ⟨[], actions⟩ =
      ⟨[], actions ++ pieces.flatMap fun d => (switchState d.2[stateOffset]).toList⟩ := by
  induction pieces generalizing actions with
  | nil => rw [List.foldl_nil, List.flatMap_nil, List.append_nil]
  | cons d pieces ih =>
      have hd := h d List.mem_cons_self
      rw [List.foldl_cons, deliver_eq (Nat.le_succ_of_le hd),
        List.getD_eq_default _ _ hd, ih (fun e he => h e (List.mem_cons_of_mem _ he)),
        List.flatMap_cons, List.append_assoc]

/-- Of two or more pieces none is the whole. -/
theorem length_lt_of_mem {chunks : List (List UInt8)} (hne : ∀ c ∈ chunks, c ≠ [])
    (htwo : 2 ≤ chunks.length) {c : List UInt8} (hc : c ∈ chunks) :
    c.length < chunks.flatten.length := by
  obtain ⟨before, after, rfl⟩ := List.append_of_mem hc
  have hrest : before ++ after ≠ [] := by
    intro h
    obtain ⟨rfl, rfl⟩ := List.append_eq_nil_iff.mp h
    simp at htwo
  obtain ⟨d, hd⟩ := List.exists_mem_of_ne_nil _ hrest
  have hdne : d ≠ [] := hne d (by
    rw [List.mem_append] at hd ⊢
    exact hd.imp_right (List.mem_cons_of_mem _))
  have hpos : 0 < d.length := List.length_pos_iff.mpr hdne
  have hle : d.length ≤ (before ++ after).flatten.length :=
    (List.sublist_flatten_of_mem hd).length_le
  simp only [List.flatten_append, List.flatten_cons, List.length_append] at hle ⊢
  omega

/-! ## The whole reply -/

/-- A reply in one piece. -/
theorem acts_single (reply : LoginSt) (buf : Memory) :
    acts [(reply.bytes, buf)] = (switchState reply.loginState).toList := by
  rw [acts, List.foldl_cons, List.foldl_nil, deliver_eq (Nat.le_of_eq (length_bytes reply)),
    getD_bytes]
  rfl

/-- A reply in several pieces: the slot runs once for each, and nothing it does depends on
the reply. -/
theorem acts_of_two_le (reply : LoginSt) {pieces : List (List UInt8 × Memory)}
    (hsplit : (pieces.map Prod.fst).flatten = reply.bytes) (hne : ∀ d ∈ pieces, d.1 ≠ [])
    (htwo : 2 ≤ pieces.length) :
    acts pieces = pieces.flatMap fun d => (switchState d.2[stateOffset]).toList := by
  rw [acts, foldl_deliver_of_short (fun d hd => ?_), List.nil_append]
  have hlt : d.1.length < ((pieces.map Prod.fst).flatten).length := by
    refine length_lt_of_mem (fun c hc => ?_) (by rwa [List.length_map])
      (List.mem_map_of_mem hd)
    obtain ⟨e, he, rfl⟩ := List.mem_map.mp hc
    exact hne e he
  rw [hsplit, length_bytes] at hlt
  omega

/-- On a stack of zeros, each of several pieces opens a main window. -/
theorem acts_zeroed (reply : LoginSt) {chunks : List (List UInt8)}
    (hsplit : chunks.flatten = reply.bytes) (hne : ∀ c ∈ chunks, c ≠ [])
    (htwo : 2 ≤ chunks.length) :
    acts (chunks.map fun c => (c, (Vector.replicate _ 0 : Memory))) =
      List.replicate chunks.length .mainWindow := by
  have hfst : (chunks.map fun c => (c, (Vector.replicate _ 0 : Memory))).map Prod.fst = chunks := by
    simp [Function.comp_def]
  have hpieces : ∀ d ∈ chunks.map fun c => (c, (Vector.replicate _ 0 : Memory)), d.1 ≠ [] := by
    intro d hd
    obtain ⟨c, hc, rfl⟩ := List.mem_map.mp hd
    exact hne c hc
  have hopens : (switchState 0).toList = [Action.mainWindow] := rfl
  rw [acts_of_two_le reply (hfst.symm ▸ hsplit) hpieces (by rwa [List.length_map]),
    List.flatMap_map]
  simp only [Vector.getElem_replicate, hopens]
  rw [← List.map_const', List.map_eq_flatMap]

theorem length_switchState_le (b : UInt8) : (switchState b).toList.length ≤ 1 := by
  cases switchState b <;> simp

/-- For every way in which the reply is cut into pieces, the slot acts on the reply,
whatever is on the stack, just when there is one piece. -/
theorem login_reply_iff (reply : LoginSt) {chunks : List (List UInt8)}
    (hsplit : chunks.flatten = reply.bytes) (hne : ∀ c ∈ chunks, c ≠ []) :
    (∀ pieces, pieces.map Prod.fst = chunks → ActsOn reply (acts pieces)) ↔
      chunks.length = 1 := by
  constructor
  · intro h
    by_contra hlength
    have hpos : 0 < chunks.length := by
      rw [List.length_pos_iff]
      rintro rfl
      have hbytes := length_bytes reply
      rw [← hsplit] at hbytes
      cases hbytes
    -- Zeros on the stack are read as a login that succeeded.
    have hacts := acts_zeroed reply hsplit hne (by omega)
    rw [(h _ (by simp [Function.comp_def])).2] at hacts
    have hcount := congrArg List.length hacts
    rw [List.length_replicate] at hcount
    have hle := length_switchState_le reply.loginState
    omega
  · intro hlength pieces hpieces
    obtain ⟨c, rfl⟩ := List.length_eq_one_iff.mp hlength
    obtain ⟨⟨c', buf⟩, rfl, rfl⟩ := List.map_eq_singleton_iff.mp hpieces
    rw [List.flatten_singleton] at hsplit
    dsimp only at hsplit
    rw [hsplit, acts_single]
    exact ⟨mainWindow_mem_switchState, rfl⟩

/-- A reply that says that the password is wrong. -/
def refusal : LoginSt := ⟨Vector.replicate _ 0, Vector.replicate _ 0, loginErrorPasswd⟩

/-- The reply in two pieces, with zeros on the stack. -/
def refusalPieces : List (List UInt8 × Memory) :=
  [(refusal.bytes.take 100, Vector.replicate _ 0), (refusal.bytes.drop 100, Vector.replicate _ 0)]

theorem flatten_refusalPieces : (refusalPieces.map Prod.fst).flatten = refusal.bytes := by
  simp [refusalPieces]

theorem refusalPieces_ne_nil : ∀ d ∈ refusalPieces, d.1 ≠ [] := by
  intro d hd
  have hlength := length_bytes refusal
  rw [← List.length_pos_iff]
  rw [refusalPieces, List.mem_cons, List.mem_singleton] at hd
  rcases hd with rfl | rfl
  · rw [List.length_take, hlength]
    decide
  · rw [List.length_drop, hlength]
    decide

/-- In these pieces the reply is not what the slot acts on. -/
theorem login_reply_iff_refusal : ¬ ∀ pieces, pieces.map Prod.fst = refusalPieces.map Prod.fst →
    ActsOn refusal (acts pieces) := by
  intro h
  have hne : ∀ c ∈ refusalPieces.map Prod.fst, c ≠ [] := by
    intro c hc
    obtain ⟨d, hd, rfl⟩ := List.mem_map.mp hc
    exact refusalPieces_ne_nil d hd
  have hone := (login_reply_iff refusal flatten_refusalPieces hne).mp h
  cases hone

/-- The main window can open although the password was wrong. -/
theorem refusal_opens_mainWindow :
    ¬ ∀ (reply : LoginSt) (pieces : List (List UInt8 × Memory)),
      (pieces.map Prod.fst).flatten = reply.bytes → (∀ d ∈ pieces, d.1 ≠ []) →
        ActsOn reply (acts pieces) := by
  intro h
  have hacts := acts_of_two_le refusal flatten_refusalPieces refusalPieces_ne_nil (Nat.le_refl _)
  have hopen := (h refusal refusalPieces flatten_refusalPieces refusalPieces_ne_nil).1
  have hmem : Action.mainWindow ∈ acts refusalPieces := by
    rw [hacts, List.mem_flatMap]
    refine ⟨_, List.mem_cons_self, ?_⟩
    dsimp only
    rw [Vector.getElem_replicate]
    exact mainWindow_mem_switchState.mpr rfl
  exact absurd (hopen.mp hmem) (by decide)

end IotEdge.LoginReply
