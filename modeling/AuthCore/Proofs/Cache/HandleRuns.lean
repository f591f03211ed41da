import AuthCore.Cache.Handle

/-!
A handle in the hands of many threads. The lock lets one of them at a time acquire the client, give
it up or look at the handle, so what they do is one list of turns, in any order. A log keeps what
every turn came to. The client is lent out until a release succeeds or a borrower breaks down,
whichever is first, and what happened first is final.
-/

set_option autoImplicit false

namespace AuthCore.Cache.Handle

inductive Move where
  | acquire
  /-- An acquisition by a borrower that breaks down if it gets to copy the client. -/
  | breakDown
  | release
  | describe
deriving DecidableEq

structure Turn where
  thread : Nat
  move : Move

inductive Reply (α : Type) where
  | acquired (answer : Except Failure α)
  | brokeDown
  | released (answer : Except Failure Bool)
  | described (text : String)

structure Entry (α : Type) extends Turn where
  reply : Reply α

variable {α : Type}

/-- What a move comes to while the lock is held, and the handle it leaves. -/
def perform (h : Handle α) : Move → Reply α × Handle α
  | .acquire => (.acquired h.acquire, h)
  | .breakDown =>
    match h.acquire with
    | .ok _ => (.brokeDown, h.poison)
    | .error f => (.acquired (.error f), h.poison)
  | .release => (.released h.release.1, h.release.2)
  | .describe => (.described h.describe, h)

def play : Handle α → List Turn → List (Entry α) × Handle α
  | h, [] => ([], h)
  | h, t :: rest =>
    let (reply, h) := h.perform t.move
    let (log, h) := play h rest
    (⟨t, reply⟩ :: log, h)

def Reply.wins : Reply α → Bool
  | .released (.ok true) => true
  | _ => false

def Reply.breaks : Reply α → Bool
  | .brokeDown => true
  | _ => false

def Reply.Idle (r : Reply α) : Prop := r.wins = false ∧ r.breaks = false

def winners (log : List (Entry α)) : Nat := log.countP fun e => e.reply.wins

def breakdowns (log : List (Entry α)) : Nat := log.countP fun e => e.reply.breaks

def Untouched (log : List (Entry α)) : Prop := winners log = 0 ∧ breakdowns log = 0

def lentReply (name : String) (client : α) : Move → Reply α
  | .acquire => .acquired (.ok client)
  | .breakDown => .brokeDown
  | .release => .released (.ok true)
  | .describe => .described
      (Text.describe "ClientHandle" [("name", Text.quote name), ("released", "false")] true)

def spentReply (name : String) (f : Failure) (again : Except Failure Bool) : Move → Reply α
  | .acquire | .breakDown => .acquired (.error f)
  | .release => .released again
  | .describe => .described
      (Text.describe "ClientHandle" [("name", Text.quote name), ("released", "true")] true)

def closedReply (name : String) : Move → Reply α :=
  spentReply name (.clientClosed name) (.ok false)

def poisonedReply (name : String) : Move → Reply α :=
  spentReply name (.lockPoisoned name) (.error (.lockPoisoned name))

/-- The handle that a log leads to: what happened to the client is what the log says. -/
inductive Accounted (name : String) (client : α) (log : List (Entry α)) : Handle α → Prop where
  | held (hwinners : winners log = 0) (hbreakdowns : breakdowns log = 0) :
    Accounted name client log ⟨name, .held client⟩
  | released (hwinners : winners log = 1) (hbreakdowns : breakdowns log = 0) :
    Accounted name client log ⟨name, .released⟩
  | poisoned (hwinners : winners log = 0) (hbreakdowns : breakdowns log = 1) :
    Accounted name client log ⟨name, .poisoned⟩

theorem Reply.wins_iff {r : Reply α} : r.wins = true ↔ r = .released (.ok true) := by
  unfold wins
  split <;> simp_all

theorem Reply.breaks_iff {r : Reply α} : r.breaks = true ↔ r = .brokeDown := by
  cases r <;> simp [breaks]

section Counts

variable {log : List (Entry α)} {e : Entry α}

theorem countP_concat (p : Reply α → Bool) :
    (log ++ [e]).countP (fun e => p e.reply) =
      log.countP (fun e => p e.reply) + (p e.reply).toNat := by
  rw [List.countP_append, List.countP_singleton]
  cases p e.reply <;> rfl

theorem winners_concat : winners (log ++ [e]) = winners log + e.reply.wins.toNat :=
  countP_concat Reply.wins

theorem breakdowns_concat : breakdowns (log ++ [e]) = breakdowns log + e.reply.breaks.toNat :=
  countP_concat Reply.breaks

theorem winners_pos_iff : 0 < winners log ↔ ∃ e ∈ log, e.reply.wins = true := List.countP_pos_iff

end Counts

/-- What a move leaves of a client that is held. -/
def slotAfter (client : α) : Move → Slot α
  | .acquire | .describe => .held client
  | .breakDown => .poisoned
  | .release => .released

section Steps

variable (name : String) (client : α) (m : Move)

theorem perform_held :
    perform ⟨name, .held client⟩ m = (lentReply name client m, ⟨name, slotAfter client m⟩) := by
  cases m <;> rfl

theorem perform_released :
    perform (⟨name, .released⟩ : Handle α) m = (closedReply name m, ⟨name, .released⟩) := by
  cases m <;> rfl

theorem perform_poisoned :
    perform (⟨name, .poisoned⟩ : Handle α) m = (poisonedReply name m, ⟨name, .poisoned⟩) := by
  cases m <;> rfl

theorem wins_lentReply : (lentReply name client m).wins = true ↔ m = .release := by
  cases m <;> simp [lentReply, Reply.wins]

theorem breaks_lentReply : (lentReply name client m).breaks = true ↔ m = .breakDown := by
  cases m <;> simp [lentReply, Reply.breaks]

theorem spentReply_ne_lentReply {f : Failure} {again : Except Failure Bool} {m : Move}
    (hagain : again ≠ .ok true) (hmove : m ≠ .describe) :
    spentReply name f again m ≠ lentReply name client m := by
  cases m with
  | acquire | breakDown => exact nofun
  | release => exact fun h => hagain (Reply.released.inj h)
  | describe => exact absurd rfl hmove

theorem idle_spentReply {f : Failure} {again : Except Failure Bool} {m : Move}
    (hagain : again ≠ .ok true) : (spentReply name f again m : Reply α).Idle := by
  cases m with
  | release =>
    refine ⟨?_, rfl⟩
    rw [Bool.eq_false_iff, ne_eq, Reply.wins_iff]
    exact fun h => hagain (Reply.released.inj h)
  | acquire | breakDown | describe => exact ⟨rfl, rfl⟩

end Steps

variable {name : String} {client : α} {h : Handle α} {log earlier later : List (Entry α)}
  {e : Entry α}

theorem Accounted.concat_idle (haccounted : Accounted name client log h) (hidle : e.reply.Idle) :
    Accounted name client (log ++ [e]) h := by
  have hwinners : winners (log ++ [e]) = winners log := by rw [winners_concat, hidle.1]; rfl
  have hbreakdowns : breakdowns (log ++ [e]) = breakdowns log := by
    rw [breakdowns_concat, hidle.2]; rfl
  cases haccounted with
  | held hw hb => exact .held (hwinners.trans hw) (hbreakdowns.trans hb)
  | released hw hb => exact .released (hwinners.trans hw) (hbreakdowns.trans hb)
  | poisoned hw hb => exact .poisoned (hwinners.trans hw) (hbreakdowns.trans hb)

theorem Accounted.perform (haccounted : Accounted name client log h) (t : Turn) :
    Accounted name client (log ++ [⟨t, (h.perform t.move).1⟩]) (h.perform t.move).2 := by
  obtain ⟨thread, move⟩ := t
  cases haccounted with
  | held hwinners hbreakdowns =>
    rw [perform_held]
    cases move with
    | acquire | describe => exact (held hwinners hbreakdowns).concat_idle ⟨rfl, rfl⟩
    | breakDown =>
      refine .poisoned ?_ ?_
      · rw [winners_concat, hwinners]; rfl
      · rw [breakdowns_concat, hbreakdowns]; rfl
    | release =>
      refine .released ?_ ?_
      · rw [winners_concat, hwinners]; rfl
      · rw [breakdowns_concat, hbreakdowns]; rfl
  | released hwinners hbreakdowns =>
    rw [perform_released]
    exact (released hwinners hbreakdowns).concat_idle (idle_spentReply name nofun)
  | poisoned hwinners hbreakdowns =>
    rw [perform_poisoned]
    exact (poisoned hwinners hbreakdowns).concat_idle (idle_spentReply name nofun)

theorem Accounted.play (haccounted : Accounted name client log h) (turns : List Turn) :
    Accounted name client (log ++ (h.play turns).1) (h.play turns).2 := by
  induction turns generalizing h log with
  | nil => rwa [Handle.play, List.append_nil]
  | cons t rest ih =>
    have hrest := ih (haccounted.perform t)
    rwa [List.append_assoc] at hrest

theorem accounted_new (name : String) (client : α) (turns : List Turn) :
    Accounted name client ((new name client).play turns).1 ((new name client).play turns).2 := by
  have hstart : Accounted name client [] (new name client) := .held rfl rfl
  exact hstart.play turns

theorem map_toTurn_play (h : Handle α) (turns : List Turn) :
    (h.play turns).1.map Entry.toTurn = turns := by
  induction turns generalizing h with
  | nil => rfl
  | cons t rest ih => exact congrArg (t :: ·) (ih _)

/-- A turn in the middle of a log is one that the handle of the turns before it replied to. -/
theorem play_split {turns : List Turn} (hlog : (h.play turns).1 = earlier ++ e :: later) :
    ∃ before after, (h.play before).1 = earlier ∧
      e.reply = ((h.play before).2.perform e.move).1 ∧
      later = (((h.play before).2.perform e.move).2.play after).1 := by
  induction earlier generalizing h turns with
  | nil =>
    cases turns with
    | nil => cases hlog
    | cons t rest =>
      obtain ⟨rfl, hlater⟩ := List.cons.inj hlog
      exact ⟨[], rest, rfl, rfl, hlater.symm⟩
  | cons first earlier ih =>
    cases turns with
    | nil => cases hlog
    | cons t rest =>
      obtain ⟨rfl, hrest⟩ := List.cons.inj hlog
      obtain ⟨before, after, hearlier, hreply, hlater⟩ := ih hrest
      exact ⟨t :: before, after, congrArg (_ :: ·) hearlier, hreply, hlater⟩

theorem reply_of_mem_play {reply : Move → Reply α} (hsettled : ∀ m, h.perform m = (reply m, h))
    (turns : List Turn) : ∀ e ∈ (h.play turns).1, e.reply = reply e.move := by
  induction turns with
  | nil => exact fun e he => (by cases he)
  | cons t rest ih =>
    rw [play, hsettled]
    exact List.forall_mem_cons.mpr ⟨rfl, ih⟩

/-- The three kinds of turns: before the client is taken, after a release and after a breakdown. -/
inductive Placed (name : String) (client : α) (earlier : List (Entry α)) (e : Entry α)
    (later : List (Entry α)) : Prop where
  | lent (hwinners : winners earlier = 0) (hbreakdowns : breakdowns earlier = 0)
    (hreply : e.reply = lentReply name client e.move)
    (hreleased : e.move = .release → ∀ a ∈ later, a.reply = closedReply name a.move)
    (hpoisoned : e.move = .breakDown → ∀ a ∈ later, a.reply = poisonedReply name a.move)
  | closed (hwinners : winners earlier = 1) (hbreakdowns : breakdowns earlier = 0)
    (hreply : e.reply = closedReply name e.move)
  | poisoned (hwinners : winners earlier = 0) (hbreakdowns : breakdowns earlier = 1)
    (hreply : e.reply = poisonedReply name e.move)

theorem placed {turns : List Turn}
    (hlog : ((new name client).play turns).1 = earlier ++ e :: later) :
    Placed name client earlier e later := by
  obtain ⟨before, after, rfl, hreply, rfl⟩ := play_split hlog
  have haccounted := accounted_new name client before
  generalize ((new name client).play before).2 = h at haccounted hreply ⊢
  cases haccounted with
  | held hwinners hbreakdowns =>
    rw [perform_held] at hreply ⊢
    refine .lent hwinners hbreakdowns hreply (fun hm => ?_) (fun hm => ?_)
    · rw [hm]
      exact reply_of_mem_play (perform_released name) after
    · rw [hm]
      exact reply_of_mem_play (perform_poisoned name) after
  | released hwinners hbreakdowns =>
    rw [perform_released] at hreply
    exact .closed hwinners hbreakdowns hreply
  | poisoned hwinners hbreakdowns =>
    rw [perform_poisoned] at hreply
    exact .poisoned hwinners hbreakdowns hreply

namespace Placed

theorem reply_iff (h : Placed name client earlier e later) (hmove : e.move ≠ .describe) :
    e.reply = lentReply name client e.move ↔ Untouched earlier := by
  unfold Untouched
  cases h with
  | lent hwinners hbreakdowns hreply => exact iff_of_true hreply ⟨hwinners, hbreakdowns⟩
  | closed hwinners hbreakdowns hreply =>
    rw [hwinners, hreply]
    exact iff_of_false (spentReply_ne_lentReply name client nofun hmove) (fun h => nomatch h.1)
  | poisoned hwinners hbreakdowns hreply =>
    rw [hbreakdowns, hreply]
    exact iff_of_false (spentReply_ne_lentReply name client nofun hmove) (fun h => nomatch h.2)

theorem idle_or_lent (h : Placed name client earlier e later) :
    e.reply.Idle ∨ Untouched earlier ∧ e.reply = lentReply name client e.move ∧
      (e.move = .release → ∀ a ∈ later, a.reply = closedReply name a.move) ∧
      (e.move = .breakDown → ∀ a ∈ later, a.reply = poisonedReply name a.move) := by
  cases h with
  | lent hwinners hbreakdowns hreply hreleased hpoisoned =>
    exact .inr ⟨⟨hwinners, hbreakdowns⟩, hreply, hreleased, hpoisoned⟩
  | closed _ _ hreply =>
    rw [hreply]
    exact .inl (idle_spentReply name nofun)
  | poisoned _ _ hreply =>
    rw [hreply]
    exact .inl (idle_spentReply name nofun)

theorem of_wins (h : Placed name client earlier e later) (hwins : e.reply.wins = true) :
    e.move = .release ∧ Untouched earlier ∧ ∀ a ∈ later, a.reply = closedReply name a.move := by
  rcases h.idle_or_lent with hidle | ⟨huntouched, hreply, hreleased, -⟩
  · rw [hidle.1] at hwins
    cases hwins
  · rw [hreply, wins_lentReply] at hwins
    exact ⟨hwins, huntouched, hreleased hwins⟩

theorem of_breaks (h : Placed name client earlier e later) (hbreaks : e.reply.breaks = true) :
    ∀ a ∈ later, a.reply = poisonedReply name a.move := by
  rcases h.idle_or_lent with hidle | ⟨-, hreply, -, hpoisoned⟩
  · rw [hidle.2] at hbreaks
    cases hbreaks
  · rw [hreply, breaks_lentReply] at hbreaks
    exact hpoisoned hbreaks

end Placed

theorem Accounted.winners_le_one (haccounted : Accounted name client log h) : winners log ≤ 1 := by
  cases haccounted with
  | held hwinners => omega
  | released hwinners => omega
  | poisoned hwinners => omega

theorem winners_play (name : String) (client : α) (turns : List Turn) :
    winners ((new name client).play turns).1 = 1 ↔
      ∃ earlier e later, ((new name client).play turns).1 = earlier ++ e :: later ∧
        e.move = .release ∧ breakdowns earlier = 0 := by
  constructor
  · intro hone
    obtain ⟨e, he, hwins⟩ := winners_pos_iff.mp (hone ▸ Nat.one_pos)
    obtain ⟨earlier, later, hlog⟩ := List.append_of_mem he
    obtain ⟨hmove, huntouched, -⟩ := (placed hlog).of_wins hwins
    exact ⟨earlier, e, later, hlog, hmove, huntouched.2⟩
  · rintro ⟨earlier, e, later, hlog, hmove, hunbroken⟩
    refine Nat.le_antisymm (accounted_new name client turns).winners_le_one (winners_pos_iff.mpr ?_)
    rw [hlog]
    -- A release that no breakdown precedes either succeeds or comes after one that did.
    cases placed hlog with
    | lent _ _ hreply =>
      refine ⟨e, List.mem_append_cons_self, ?_⟩
      rw [hreply, wins_lentReply, hmove]
    | closed hwinners =>
      obtain ⟨a, ha, hwins⟩ := winners_pos_iff.mp (hwinners ▸ Nat.one_pos)
      exact ⟨a, List.mem_append_left _ ha, hwins⟩
    | poisoned _ hbroken =>
      rw [hbroken] at hunbroken
      cases hunbroken

/-- The client is given away until it is released, and released once. Whatever any threads do in any
order, an acquisition gets the client exactly if no release has succeeded and no borrower has broken
down before it; a borrower breaks down only where it got the client. At most one release succeeds,
and one does exactly if some release comes before any breakdown. After it the handle is closed, and
no borrower can break it any more. After a breakdown every move fails, and the handle describes
itself as released. -/
theorem client_released_once (name : String) (client : α) (turns : List Turn) :
    ((new name client).play turns).1.map Entry.toTurn = turns ∧
    winners ((new name client).play turns).1 ≤ 1 ∧
    (winners ((new name client).play turns).1 = 1 ↔
      ∃ earlier e later, ((new name client).play turns).1 = earlier ++ e :: later ∧
        e.move = .release ∧ breakdowns earlier = 0) ∧
    (∀ earlier e later, ((new name client).play turns).1 = earlier ++ e :: later →
      (e.move = .acquire → (e.reply = .acquired (.ok client) ↔ Untouched earlier)) ∧
      (e.move = .breakDown → (e.reply = .brokeDown ↔ Untouched earlier)) ∧
      (e.reply = .released (.ok true) → ∀ a ∈ later, a.reply = closedReply name a.move) ∧
      (e.reply = .brokeDown → ∀ a ∈ later, a.reply = poisonedReply name a.move)) ∧
    (Failure.lockPoisoned name).kind = .cache ∧
    (Failure.lockPoisoned name).message = name ++ " client lock poisoned" := by
  refine ⟨map_toTurn_play _ turns, (accounted_new name client turns).winners_le_one,
    winners_play name client turns, fun earlier e later hlog => ⟨fun hmove => ?_, fun hmove => ?_,
      fun hreply => ?_, fun hreply => ?_⟩, rfl, rfl⟩
  · have hiff := (placed hlog).reply_iff (by rw [hmove]; exact nofun)
    rwa [hmove] at hiff
  · have hiff := (placed hlog).reply_iff (by rw [hmove]; exact nofun)
    rwa [hmove] at hiff
  · exact ((placed hlog).of_wins (Reply.wins_iff.mpr hreply)).2.2
  · exact (placed hlog).of_breaks (Reply.breaks_iff.mpr hreply)

theorem client_released_once_raced :
    (let log := ((new "redis" 7).play [⟨1, .release⟩, ⟨2, .breakDown⟩, ⟨3, .release⟩]).1
     winners log = 1 ∧ ∀ a ∈ log.tail, a.reply = closedReply "redis" a.move) ∧
    (let log := ((new "redis" 7).play [⟨1, .acquire⟩, ⟨2, .breakDown⟩, ⟨1, .release⟩]).1
     (∀ a ∈ log.take 1, a.reply = .acquired (.ok 7)) ∧
      ∀ a ∈ log.drop 2, a.reply = poisonedReply "redis" a.move) := by
  constructor
  · obtain ⟨-, -, hone, hturn, -⟩ :=
      client_released_once "redis" 7 [⟨1, .release⟩, ⟨2, .breakDown⟩, ⟨3, .release⟩]
    exact ⟨hone.mpr ⟨[], _, _, rfl, rfl, rfl⟩, (hturn [] _ _ rfl).2.2.1 rfl⟩
  · obtain ⟨-, -, -, hturn, -⟩ :=
      client_released_once "redis" 7 [⟨1, .acquire⟩, ⟨2, .breakDown⟩, ⟨1, .release⟩]
    have hlent := ((hturn [] _ _ rfl).1 rfl).mpr ⟨rfl, rfl⟩
    exact ⟨List.forall_mem_singleton.mpr hlent, (hturn [_] _ _ rfl).2.2.2 rfl⟩

end AuthCore.Cache.Handle
