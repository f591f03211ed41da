import AuthCore.Cache.Remote
import AuthCore.Proofs.Cache.GlobLanguage
import AuthCore.Proofs.Text.DecimalDigits
import AuthCore.Proofs.Text.Utf8RoundTrip
import AuthCore.Text.OrderedMap

set_option autoImplicit false

namespace AuthCore.Cache.Remote

theorem arg_append (s t : String) : arg (s ++ t) = arg s ++ arg t := by
  simp [arg, Text.Utf8.encode, Text.Utf8.encodeChars]

theorem decode?_arg (s : String) : Text.Utf8.decode? (arg s) = some s :=
  Text.Utf8.decode?_encode s

theorem arg_injective {s t : String} (h : arg s = arg t) : s = t := by
  have hread := decode?_arg s
  rw [h, decode?_arg t] at hread
  exact (Option.some.inj hread).symm

theorem cursor?_number {n : Nat} (h : n < limit64) : (Reply.bulk (number n)).cursor? = some n := by
  simp only [Reply.cursor?, number, decode?_arg, Option.bind_some, Text.Decimal.write,
    String.toList_ofList, Text.Decimal.readBelow?_digits h]

def pageReply (next : Nat) (keys : List Bytes) : Reply :=
  .list [.bulk (number next), .list (keys.map .bulk)]

theorem page?_pageReply {next : Nat} (h : next < limit64) (texts : List String) :
    (pageReply next (texts.map arg)).page? = some (next, texts) := by
  have htext : Reply.text? ∘ Reply.bulk ∘ arg = some := funext decode?_arg
  have htexts : ((texts.map arg).map Reply.bulk).mapM Reply.text? = some (texts.map id) := by
    rw [List.map_map, List.mapM_map, htext]
    exact List.mapM_pure
  rw [List.map_id] at htexts
  simp only [pageReply, Reply.page?, Reply.keys?, cursor?_number h, htexts, Option.bind_eq_bind,
    Option.bind_some, Option.pure_def]

theorem milliseconds_eq {ms : Nat} (hleast : 1 ≤ ms) (hbound : ms < limit64) :
    milliseconds (ms * 1000000) = ms := by
  rw [milliseconds, Nat.mul_div_cancel ms (by decide)]
  omega

theorem mem_insertKey {key x : String} {keys : List String} :
    x ∈ insertKey key keys ↔ x = key ∨ x ∈ keys := by
  induction keys with
  | nil => simp [insertKey]
  | cons k keys ih =>
    unfold insertKey
    split
    · simp
    · split
      · rename_i heq
        simp [heq]
      · simp only [List.mem_cons, ih]
        grind

theorem mem_sortKeys {x : String} {keys : List String} : x ∈ sortKeys keys ↔ x ∈ keys := by
  induction keys with
  | nil => simp [sortKeys]
  | cons k keys ih =>
    have hcons : sortKeys (k :: keys) = insertKey k (sortKeys keys) := rfl
    rw [hcons, mem_insertKey, ih, List.mem_cons]

theorem pairwise_insertKey (key : String) {keys : List String} (h : keys.Pairwise (· < ·)) :
    (insertKey key keys).Pairwise (· < ·) := by
  induction keys with
  | nil => simp [insertKey]
  | cons k keys ih =>
    have ⟨hhead, htail⟩ := List.pairwise_cons.mp h
    unfold insertKey
    split
    · rename_i hlt
      refine List.pairwise_cons.mpr ⟨fun x hx => ?_, h⟩
      rcases List.mem_cons.mp hx with rfl | hx
      · exact hlt
      · exact String.lt_trans hlt (hhead x hx)
    · rename_i hnlt
      split
      · exact h
      · rename_i hne
        refine List.pairwise_cons.mpr ⟨fun x hx => ?_, ih htail⟩
        rcases mem_insertKey.mp hx with rfl | hx
        · exact Text.lt_of_not_lt_of_ne hnlt hne
        · exact hhead x hx

theorem pairwise_sortKeys (keys : List String) : (sortKeys keys).Pairwise (· < ·) := by
  induction keys with
  | nil => exact .nil
  | cons k keys ih => exact pairwise_insertKey k ih

theorem nodup_sortKeys (keys : List String) : (sortKeys keys).Nodup := by
  refine (pairwise_sortKeys keys).imp fun hlt heq => ?_
  subst heq
  exact String.lt_irrefl _ hlt

theorem unprefixed_append (c : Remote) (key : String) :
    c.unprefixed (c.keyPrefix ++ key) = key := by
  have hprefix : c.keyPrefix.toList.isPrefixOf (c.keyPrefix ++ key).toList = true := by
    simp
  rw [unprefixed, if_pos hprefix]
  simp

variable {σ : Type}

/-- A server that keeps the commands it is sent and replies to them in any way. -/
def recorder (reply : Time.Instant → Command → List Command → Outcome) : Server (List Command) :=
  fun now command sent => (reply now command sent, sent ++ [command])

def pageLimit : Nat := limit64

inductive Pages (server : Server σ) (now : Time.Instant) (pattern count : Bytes) :
    Nat → σ → List (List Bytes) → σ → Prop where
  | last {cursor : Nat} {s s' : σ} {keys : List Bytes}
    (h : server now [arg "SCAN", number cursor, arg "MATCH", pattern, arg "COUNT", count] s =
      (.reply (pageReply 0 keys), s')) :
    Pages server now pattern count cursor s [keys] s'
  | more {cursor next : Nat} {s s' s'' : σ} {keys : List Bytes} {pages : List (List Bytes)}
    (h : server now [arg "SCAN", number cursor, arg "MATCH", pattern, arg "COUNT", count] s =
      (.reply (pageReply next keys), s')) (hnext : next ≠ 0) (hbound : next < limit64)
    (hrest : Pages server now pattern count next s' pages s'') :
    Pages server now pattern count cursor s (keys :: pages) s''

theorem exchange_reply {α : Type} {c : Remote} {server : Server σ} {now : Time.Instant}
    {command : Command} {s s' : σ} {r : Reply} (h : server now command s = (.reply r, s'))
    {read : Reply → Option α} {a : α} (hread : read r = some a) (name : String) :
    c.exchange server now name command read s = (.ok a, s') := by
  simp only [exchange, h, hread]

def Outcome.page? : Outcome → Option (Nat × List String)
  | .reply r => r.page?
  | _ => none

/-- The pages of a scan from a cursor on that each say where the next begins, with that place and
the state of the server after them. -/
inductive Turns (c : Remote) (server : Server σ) (now : Time.Instant) (pattern : String) :
    Nat → σ → List (Nat × List String) → Nat → σ → Prop where
  | refl (cursor : Nat) (s : σ) : Turns c server now pattern cursor s [] cursor s
  | next {cursor last : Nat} {s s' s'' : σ} {outcome : Outcome} {page : Nat × List String}
    {pages : List (Nat × List String)}
    (h : server now (c.scanCommand cursor pattern) s = (outcome, s'))
    (hpage : outcome.page? = some page) (hnext : page.1 ≠ 0)
    (hrest : Turns c server now pattern page.1 s' pages last s'') :
    Turns c server now pattern cursor s (page :: pages) last s''

theorem scanFrom_turn (c : Remote) (server : Server σ) (now : Time.Instant) (pattern : String)
    (cursor : Nat) (found : List String) (s : σ) :
    c.scanFrom server now pattern cursor found s =
      match c.turn server now pattern (cursor, found, s) with
      | .inl (next, found, s) => c.scanFrom server now pattern next found s
      | .inr result => result := by
  have : Nonempty (Except Failure (List String) × σ) := ⟨.ok [], s⟩
  have hloop := repeatM_eq_of_monadTail (m := Id) (f := c.turn server now pattern)
    (cursor, found, s)
  refine Eq.trans hloop ?_
  rw [repeatM.body]
  cases c.turn server now pattern (cursor, found, s) <;> rfl

section Scan

variable {c : Remote} {server : Server σ} {now : Time.Instant} {pattern : String}
  {cursor last : Nat} {s s' : σ} {outcome : Outcome}

theorem exchange_page (h : server now (c.scanCommand cursor pattern) s = (outcome, s'))
    {page : Nat × List String} (hpage : outcome.page? = some page) :
    c.exchange server now "SCAN" (c.scanCommand cursor pattern) Reply.page? s = (.ok page, s') := by
  cases outcome with
  | reply r => exact exchange_reply h hpage "SCAN"
  | silence => cases hpage
  | lost => cases hpage

theorem turn_page (h : server now (c.scanCommand cursor pattern) s = (outcome, s'))
    {page : Nat × List String} (hpage : outcome.page? = some page) (found : List String) :
    c.turn server now pattern (cursor, found, s) =
      if page.1 = 0 then .inr (.ok (found ++ page.2), s')
      else .inl (page.1, found ++ page.2, s') := by
  simp only [turn, exchange_page h hpage]

theorem scanFrom_last (h : server now (c.scanCommand cursor pattern) s = (outcome, s'))
    {keys : List String} (hpage : outcome.page? = some (0, keys)) (found : List String) :
    c.scanFrom server now pattern cursor found s = (.ok (found ++ keys), s') := by
  rw [scanFrom_turn, turn_page h hpage, if_pos rfl]

/-- A scan goes on from where its pages lead, with all their keys. -/
theorem Turns.scanFrom_eq {pages : List (Nat × List String)}
    (h : Turns c server now pattern cursor s pages last s') (found : List String) :
    c.scanFrom server now pattern cursor found s =
      c.scanFrom server now pattern last (found ++ pages.flatMap Prod.snd) s' := by
  induction h generalizing found with
  | refl => rw [List.flatMap_nil, List.append_nil]
  | next h hpage hnext _ ih =>
    rw [scanFrom_turn, turn_page h hpage, if_neg hnext]
    simp only [ih, List.flatMap_cons, List.append_assoc]

theorem Pages.exists_turns {pages : List (List Bytes)}
    (h : Pages server now (arg pattern) (number c.batch) cursor s pages s') {texts : List String}
    (htexts : pages.flatten = texts.map arg) :
    ∃ turns last sl keys, Turns c server now pattern cursor s turns last sl ∧
      server now (c.scanCommand last pattern) sl = (.reply (pageReply 0 (keys.map arg)), s') ∧
      texts = turns.flatMap Prod.snd ++ keys := by
  induction h generalizing texts with
  | last h =>
    rw [List.flatten_singleton] at htexts
    subst htexts
    exact ⟨[], _, _, texts, .refl _ _, h, rfl⟩
  | @more _ next _ _ _ _ _ h hnext hbound _ ih =>
    rw [List.flatten_cons] at htexts
    obtain ⟨page, later, rfl, rfl, hlater⟩ := List.append_eq_map_iff.mp htexts
    obtain ⟨turns, last, sl, keys, hturns, hlast, rfl⟩ := ih hlater.symm
    refine ⟨(next, page) :: turns, last, sl, keys, ?_, hlast, ?_⟩
    · exact .next h (page?_pageReply hbound page) hnext hturns
    · rw [List.flatMap_cons, List.append_assoc]

theorem scanFrom_of_pages {pages : List (List Bytes)}
    (h : Pages server now (arg pattern) (number c.batch) cursor s pages s') {texts : List String}
    (htexts : pages.flatten = texts.map arg) (found : List String) :
    c.scanFrom server now pattern cursor found s = (.ok (found ++ texts), s') := by
  obtain ⟨turns, last, sl, keys, hturns, hlast, rfl⟩ := h.exists_turns htexts
  rw [hturns.scanFrom_eq, scanFrom_last hlast (page?_pageReply (by decide) keys),
    List.append_assoc]

end Scan

theorem exists_texts {keys : List Bytes} (h : ∀ key ∈ keys, ∃ text, key = arg text) :
    ∃ texts : List String, keys = texts.map arg := by
  induction keys with
  | nil => exact ⟨[], rfl⟩
  | cons key keys ih =>
    obtain ⟨⟨text, rfl⟩, hrest⟩ := List.forall_mem_cons.mp h
    obtain ⟨texts, rfl⟩ := ih hrest
    exact ⟨text :: texts, rfl⟩

end AuthCore.Cache.Remote
