import AuthCore.Cache.Manager
import AuthCore.Proofs.Cache.RemoteScan

set_option autoImplicit false

namespace AuthCore.Cache.Remote

def scripted (script : List Outcome) : Server (List Command) :=
  recorder fun _ _ sent => (script[sent.length]?).getD .lost

theorem scripted_of_sent {done : List Outcome} {outcome : Outcome} {rest : List Outcome}
    {sent : List Command} (hsent : sent.length = done.length) (now : Time.Instant)
    (command : Command) :
    scripted (done ++ outcome :: rest) now command sent = (outcome, sent ++ [command]) := by
  rw [scripted, recorder, hsent, List.getElem?_append_right (Nat.le_refl _), Nat.sub_self]
  rfl

/-- A key of the server and what it is outside: what follows the namespace, or the key itself where
it does not begin with that. -/
def Bare (space full key : String) : Prop :=
  full = space ++ key ∨ ¬ space.toList <+: full.toList ∧ full = key

theorem unprefixed_eq_iff {c : Remote} {full key : String} :
    c.unprefixed full = key ↔ Bare c.keyPrefix full key := by
  unfold Bare
  by_cases h : c.keyPrefix.toList <+: full.toList
  · obtain ⟨rest, hrest⟩ := h
    obtain rfl : full = c.keyPrefix ++ String.ofList rest :=
      String.toList_inj.mp (by rw [String.toList_append, String.toList_ofList, hrest])
    have hkey : c.keyPrefix ++ String.ofList rest = c.keyPrefix ++ key ↔
        String.ofList rest = key := by
      rw [← String.toList_inj, String.toList_append, String.toList_append,
        List.append_cancel_left_eq, String.toList_inj]
    rw [unprefixed_append, hkey, or_iff_left]
    rintro ⟨hnot, -⟩
    exact hnot (by rw [String.toList_append]; exact List.prefix_append _ _)
  · have hkey : full ≠ c.keyPrefix ++ key := by
      rintro rfl
      exact h (by rw [String.toList_append]; exact List.prefix_append _ _)
    rw [unprefixed, if_neg fun heq => h (List.isPrefixOf_iff_prefix.mp heq)]
    simp [hkey, h]

variable {c : Remote} {now : Time.Instant} {pattern : String}

theorem turns_scripted {outcomes : List Outcome} {pages : List (Nat × List String)}
    (hpages : outcomes.map Outcome.page? = pages.map some) (hnext : ∀ page ∈ pages, page.1 ≠ 0)
    {done rest : List Outcome} {sent : List Command} (hsent : sent.length = done.length)
    (cursor : Nat) :
    Turns c (scripted (done ++ (outcomes ++ rest))) now pattern cursor sent pages
      ((cursor :: pages.map Prod.fst).getLast (List.cons_ne_nil _ _))
      (sent ++ ((cursor :: pages.map Prod.fst).dropLast.map fun n => c.scanCommand n pattern)) := by
  induction outcomes generalizing pages done sent cursor with
  | nil =>
    obtain rfl : pages = [] := by simpa using hpages.symm
    simpa using Turns.refl cursor sent
  | cons outcome outcomes ih =>
    obtain ⟨page, pages, rfl⟩ : ∃ page rest, pages = page :: rest := by
      cases pages with
      | nil => cases hpages
      | cons page pages => exact ⟨page, pages, rfl⟩
    obtain ⟨hpage, hpages⟩ := List.cons.inj hpages
    obtain ⟨hfirst, hnext⟩ := List.forall_mem_cons.mp hnext
    have hsent' : (sent ++ [c.scanCommand cursor pattern]).length = (done ++ [outcome]).length := by
      simp [hsent]
    have hrest := ih hpages hnext hsent' page.1
    rw [List.append_assoc, List.singleton_append, List.append_assoc] at hrest
    simpa using Turns.next (scripted_of_sent hsent now _) hpage hfirst hrest

theorem scanFrom_scripted (c : Remote) (now : Time.Instant) (pattern : String)
    {outcomes : List Outcome} {pages : List (Nat × List String)}
    (hpages : outcomes.map Outcome.page? = pages.map some) (hnext : ∀ page ∈ pages, page.1 ≠ 0)
    (final : Outcome) (rest : List Outcome) :
    ∃ last sent, c.scanFrom (scripted (outcomes ++ final :: rest)) now pattern 0 [] [] =
        c.scanFrom (scripted (outcomes ++ final :: rest)) now pattern last
          (pages.flatMap Prod.snd) sent ∧
      sent ++ [c.scanCommand last pattern] =
        (0 :: pages.map Prod.fst).map (fun n => c.scanCommand n pattern) ∧
      scripted (outcomes ++ final :: rest) now (c.scanCommand last pattern) sent =
        (final, sent ++ [c.scanCommand last pattern]) := by
  have hlength : outcomes.length = pages.length := by simpa using congrArg List.length hpages
  have hturns : Turns c (scripted ([] ++ (outcomes ++ final :: rest))) now pattern 0 [] pages _ _ :=
    turns_scripted hpages hnext rfl 0
  rw [List.nil_append, List.nil_append] at hturns
  refine ⟨_, _, hturns.scanFrom_eq [], ?_, scripted_of_sent ?_ now _⟩
  · rw [← List.map_singleton (f := fun n => c.scanCommand n pattern), ← List.map_append,
      List.dropLast_concat_getLast]
  · simp [hlength]

theorem client_of_connect {settings : Config.Cache} {attempt : Attempt} {client : Remote}
    (h : connect settings attempt = .ok client) : client.handle.acquire = .ok () ∧
      client.keyPrefix = settings.redis.keyPrefix ∧
      client.batch = max settings.redis.scanBatchSize 1 := by
  unfold connect at h
  split at h
  · split at h <;> cases h
    exact ⟨rfl, rfl, Nat.max_comm ..⟩
  · cases h

theorem answer_scan {σ : Type} {server : Server σ} (hopen : c.handle.acquire = .ok ()) {s s' : σ}
    {result : Except Failure (List String)}
    (h : c.scanFrom server now (Glob.namespaced c.keyPrefix pattern) 0 [] s = (result, s')) :
    answer server (.scan pattern) now (c, s) =
      (result.map fun keys => sortKeys (keys.map c.unprefixed), c, s') := by
  simp only [answer, hopen, perform, h]

def Outcome.faultKind : Outcome → ErrorKind
  | .silence => .timeout
  | _ => .cache

theorem scanFrom_failed {σ : Type} {server : Server σ} {cursor : Nat} {s s' : σ}
    {outcome : Outcome} (h : server now (c.scanCommand cursor pattern) s = (outcome, s'))
    (hpage : outcome.page? = none) (found : List String) :
    ∃ f : Failure, c.scanFrom server now pattern cursor found s = (.error f, s') ∧
      f.kind = outcome.faultKind := by
  rw [scanFrom_turn, turn, exchange, h]
  cases outcome with
  | silence => exact ⟨_, rfl, rfl⟩
  | lost => exact ⟨_, rfl, rfl⟩
  | reply r =>
    rw [Outcome.page?] at hpage
    simp only [hpage]
    exact ⟨_, rfl, rfl⟩

theorem scanFrom_end {σ : Type} {server : Server σ} {cursor : Nat} {s s' : σ} {outcome : Outcome}
    (h : server now (c.scanCommand cursor pattern) s = (outcome, s'))
    (hfinal : ∀ page, outcome.page? = some page → page.1 = 0) (found : List String) :
    ∃ result, c.scanFrom server now pattern cursor found s = (result, s') ∧
      (∀ keys, outcome.page? = some (0, keys) → result = .ok (found ++ keys)) ∧
      (outcome.page? = none → ∃ f : Failure, result = .error f ∧ f.kind = outcome.faultKind) := by
  cases hpage : outcome.page? with
  | some page =>
    obtain ⟨next, keys⟩ := page
    obtain rfl : next = 0 := hfinal _ hpage
    refine ⟨_, scanFrom_last h hpage found, fun keys' heq => ?_, nofun⟩
    cases heq
    rfl
  | none =>
    obtain ⟨f, hfailed, hkind⟩ := scanFrom_failed h hpage found
    exact ⟨_, hfailed, nofun, fun _ => ⟨f, rfl, hkind⟩⟩

/-- A scan asks for the first page and then for the one that each page names, always with the
pattern behind the escaped namespace and with the batch size of the settings, at least one. It ends
with the page that names no other, and gives the keys of all pages without the namespace, each once
and in order. Where a page does not come, or is none, it fails as a whole. -/
theorem scan_collects_pages {settings : Config.Cache} {attempt : Attempt} {client : Remote}
    (hconnect : connect settings attempt = .ok client) (now : Time.Instant) (pattern : String)
    {outcomes : List Outcome} {pages : List (Nat × List String)}
    (hpages : outcomes.map Outcome.page? = pages.map some) (hnext : ∀ page ∈ pages, page.1 ≠ 0)
    {final : Outcome} (hfinal : ∀ page, final.page? = some page → page.1 = 0)
    (rest : List Outcome) :
    let run := answer (scripted (outcomes ++ final :: rest)) (.scan pattern) now (client, [])
    run.2 = (client, (0 :: pages.map Prod.fst).map fun cursor =>
      [arg "SCAN", number cursor,
        arg "MATCH", arg (Glob.escape settings.redis.keyPrefix ++ pattern),
        arg "COUNT", number (max settings.redis.scanBatchSize 1)]) ∧
    (∀ keys, final.page? = some (0, keys) → ∃ found, run.1 = .ok found ∧
      found.Pairwise (· < ·) ∧ ∀ key, key ∈ found ↔
        ∃ full ∈ pages.flatMap Prod.snd ++ keys, Bare settings.redis.keyPrefix full key) ∧
    (final.page? = none → ∃ f : Failure, run.1 = .error f ∧ f.kind = final.faultKind) ∧
    ∀ next keys, next < limit64 →
      (Outcome.reply (pageReply next (keys.map arg))).page? = some (next, keys) := by
  obtain ⟨hopen, hspace, hbatch⟩ := client_of_connect hconnect
  obtain ⟨last, sent, hscan, hsent, hserve⟩ := scanFrom_scripted client now
    (Glob.namespaced client.keyPrefix pattern) hpages hnext final rest
  obtain ⟨result, hend, hfound, hfailed⟩ := scanFrom_end hserve hfinal (pages.flatMap Prod.snd)
  rw [answer_scan hopen (hscan.trans hend), hsent]
  refine ⟨?_, fun keys hkeys => ?_, fun hnone => ?_,
    fun next keys hbound => page?_pageReply hbound keys⟩
  · simp only [scanCommand, hbatch, hspace, Glob.namespaced]
  · rw [hfound keys hkeys]
    refine ⟨_, rfl, pairwise_sortKeys _, fun key => ?_⟩
    rw [mem_sortKeys, List.mem_map, ← hspace]
    simp only [unprefixed_eq_iff]
  · obtain ⟨f, rfl, hkind⟩ := hfailed hnone
    exact ⟨f, rfl, hkind⟩

def pagedSettings : Config.Cache := { redis := { keyPrefix := "w*:", scanBatchSize := 0 } }

def pagedRemote : Remote := ⟨.new "redis" (), "w*:", 2000, 1209600, 1⟩

def firstTurns : List Outcome :=
  [.reply (pageReply 7 (["w*:b", "w*:a"].map arg)), .reply (.list [.int 3, .list []])]

def firstPages : List (Nat × List String) := [(7, ["w*:b", "w*:a"]), (3, [])]

/-- The last page has a key of the first one, and one from outside the namespace. -/
theorem scan_collects_overlapping_pages :
    (∃ found sent, answer (scripted (firstTurns ++ [.reply (pageReply 0 (["w*:a", "x"].map arg))]))
        (.scan "*") ⟨0, 0⟩ (pagedRemote, []) = (.ok found, pagedRemote, sent) ∧
      sent = (["0", "7", "3"].map fun cursor =>
        ["SCAN", cursor, "MATCH", "w\\*:*", "COUNT", "1"].map arg) ∧
      found.Pairwise (· < ·) ∧ ∀ key, key ∈ found ↔ key = "b" ∨ key = "a" ∨ key = "x") ∧
    ∃ f : Failure, (answer (scripted (firstTurns ++ [.silence])) (.scan "*") ⟨0, 0⟩
      (pagedRemote, [])).1 = .error f ∧ f.kind = .timeout := by
  have hconnect : connect pagedSettings .connected = .ok pagedRemote := rfl
  have hpages : firstTurns.map Outcome.page? = firstPages.map some := by decide +kernel
  have hnext : ∀ page ∈ firstPages, page.1 ≠ 0 := by decide
  constructor
  · have hlast : (Outcome.reply (pageReply 0 (["w*:a", "x"].map arg))).page? =
        some (0, ["w*:a", "x"]) := page?_pageReply (by decide) _
    obtain ⟨hafter, hfound, -, -⟩ := scan_collects_pages hconnect ⟨0, 0⟩ "*" hpages hnext
      (fun page hpage => by cases hlast.symm.trans hpage; rfl) []
    obtain ⟨found, hanswer, hsorted, hmem⟩ := hfound _ hlast
    refine ⟨found, _, Prod.ext hanswer hafter, by decide +kernel, hsorted, fun key => ?_⟩
    rw [hmem]
    have hkeys : (firstPages.flatMap Prod.snd ++ ["w*:a", "x"]).map pagedRemote.unprefixed =
        ["b", "a", "a", "x"] := by decide +kernel
    have hbare : (∃ full ∈ firstPages.flatMap Prod.snd ++ ["w*:a", "x"], Bare "w*:" full key) ↔
        key ∈ ["b", "a", "a", "x"] := by
      rw [← hkeys, List.mem_map]
      simp only [unprefixed_eq_iff, pagedRemote]
    exact hbare.trans (by simp)
  · have hsilence : ∀ page, Outcome.silence.page? = some page → page.1 = 0 := nofun
    obtain ⟨-, -, hfailed, -⟩ := scan_collects_pages hconnect ⟨0, 0⟩ "*" hpages hnext hsilence []
    exact hfailed rfl

end AuthCore.Cache.Remote
