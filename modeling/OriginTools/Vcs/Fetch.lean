import OriginTools.Vcs.Depth
import OriginTools.Vcs.Export
import OriginTools.Vcs.Pack

/-!
# Fetching

Both sides of a fetch (`remote.rs`).
-/

namespace OriginTools.Vcs
open Store Std.ExtTreeMap
variable (sdk : Sdk) (env : Env) (manifestJson : RemoteManifest → Bytes)

def ownManifest (info : RepoMeta) (ids : List ObjectId) : RemoteManifest :=
  ⟨ofList info.branches compare,ofList info.tags compare,ids.map hex,false⟩

/-- The manifest that is served; the published one is used for a full fetch, after the
reachable objects have been listed all the same. -/
def Store.servedManifest (s : Store) (info : RepoMeta) : Option ℕ → Except String RemoteManifest
  | some n =>
    (s.depthReachable sdk (info.branches.map Prod.snd) (info.tags.map Prod.snd) [] n).map fun r =>
      ownManifest info r.1.toList
  | none =>
    (s.reachableFromRefs sdk (info.branches.map Prod.snd) (info.tags.map Prod.snd) []).map
      fun ids => s.publishedManifest.getD
        (ownManifest info (Std.ExtTreeSet.ofList ids compare).toList)

def serveObjects (s : Store) : List String → Command Pack.Link String Unit
  | [] => pure ()
  | hexid::rest => do
    let id ← Command.ofExcept (idFromHexStr hexid)
    let bytes ← Command.ofExcept (s.envelopeBytes id)
    Pack.sendMsg msgObject bytes
    serveObjects s rest

def serveFetch (s : Store) (info : RepoMeta) (depth : Option ℕ) :
    Command Pack.Link String Unit := do
  let manifest ← Command.ofExcept (s.servedManifest sdk info depth)
  Pack.sendMsg msgManifest (manifestJson manifest)
  serveObjects s manifest.objectIds
  Pack.sendMsg msgDone []

def fetchRequest : Option ℕ → Bytes
  | none => utf8 "\x7b\"cmd\":\"fetch\"\x7d"
  | some 1 => utf8 "\x7b\"cmd\":\"fetch\",\"shallow\":true\x7d"
  | some n => utf8 s!"\x7b\"cmd\":\"fetch\",\"shallow\":true,\"depth\":{n}\x7d"

/-- The loop over the object messages, `none` when they run out: the number of objects
imported and the store. -/
def fetchObjects (objectIds : List String) :
    List Incoming → ℕ → Store → Option (Except String ℕ) × Store
  | [],_,s => (none,s)
  | .error e::_,_,s => (some (.error e),s)
  | .ok (typ,body)::inbox,imported,s =>
    if typ=msgObject then
      match objectIds[imported]? with
      | none => (some (.error "more objects than manifest"),s)
      | some h =>
        match idFromHexStr h with
        | .error e => (some (.error e),s)
        | .ok id => fetchObjects objectIds inbox (imported+1) (putEnvelopeBytes id body s)
    else if typ=msgDone then (some (.ok imported),s)
    else if typ=msgError then (some (.error (sdk.fromUtf8Lossy body)),s)
    else (some (.error s!"fetch: unexpected frame 0x{hexByte typ}"),s)

def trackingName (name : String) (p : String × ObjectId) : String := s!"{name}/{p.1}"

def trackBranches (sign : Bytes → Signature) (name : String) :
    List (String × ObjectId) → Command Store String Unit
  | [] => pure ()
  | p::rest => do
    writeRef .remotes (trackingName name p) p.2 (sign (idBytes p.2))
    trackBranches sign name rest

def fetchFinish (name : String) (track : Bool) (depth : Option ℕ) (manifest : RemoteManifest)
    (s : Store) : Option (Except String RemoteManifest) × Store :=
  let s:=if depth.isSome then { s with shallow := true } else s
  if track then
    match env.signingBundle with
    | .error e => (some (.error e),s)
    | .ok sign =>
      match trackBranches sign name manifest.branches.toList s with
      | none => (none,s)
      | some (r,s) => (some (r.map fun _ => manifest),s)
  else (some (.ok manifest),s)

def fetchReply (name : String) (track : Bool) (depth : Option ℕ) (s : Store) :
    List Incoming → Option (Except String RemoteManifest) × Store
  | [] => (none,s)
  | .error e::_ => (some (.error e),s)
  | .ok (typ,mbytes)::inbox =>
    if typ=msgError then (some (.error (sdk.fromUtf8Lossy mbytes)),s)
    else if typ≠msgManifest then
      (some (.error s!"fetch: expected manifest, got 0x{hexByte typ}"),s)
    else match sdk.parseManifest mbytes with
      | .error e => (some (.error s!"manifest parse: {e}"),s)
      | .ok manifest =>
        match fetchObjects sdk manifest.objectIds inbox 0 s with
        | (none,s') => (none,s')
        | (some (.error e),s') => (some (.error e),s')
        | (some (.ok imported),s') =>
          let total:=manifest.objectIds.length
          if imported≠total then
            (some (.error s!"fetch incomplete: imported {imported}/{total} objects"),s')
          else fetchFinish env name track depth manifest s'

def fetchExchange (name : String) (track : Bool) (depth : Option ℕ) (conn : Conn) (s : Store) :
    Option (Except String RemoteManifest) × Store :=
  match sendMsg msgRequest (fetchRequest depth) ⟨s,conn⟩ with
  | none => (none,s)
  | some (.error e,_) => (some (.error e),s)
  | some (.ok (),client) => fetchReply sdk env name track depth s client.conn.inbox

/-- There is a key, and the tracking refs of the manifest can be written. -/
def CanTrack (name : String) (manifest : RemoteManifest) (s : Store) : Prop :=
  (∃ sign,env.signingBundle=.ok sign) ∧
    refsFit s.remotes.keys (manifest.branches.toList.map (trackingName name))=true

/-- The messages begin an exchange that the client has no objection to, and the objects
they bring are `taken`: a manifest, then objects for its first places, then nothing
more, or DONE after the last place when the client can finish. -/
def Takes (name : String) (track : Bool) (s : Store) (msgs : List (UInt8 × Bytes))
    (taken : List (ObjectId × Bytes)) : Prop :=
  (msgs=[] ∧ taken=[]) ∨ ∃ mbytes manifest rest,
      msgs=(msgManifest,mbytes)::(taken.map (fun p => (msgObject,p.2))++rest) ∧
      sdk.parseManifest mbytes=.ok manifest ∧
      List.Forall₂ (fun h p => idFromHexStr h=.ok p.1)
        (manifest.objectIds.take taken.length) taken ∧
      (rest=[] ∨ (∃ body after,rest=(msgDone,body)::after) ∧
        manifest.objectIds.length=taken.length ∧ (track=true → CanTrack env name manifest s))

def takenFor (taken : List (ObjectId × Bytes)) (id : ObjectId) : Option Bytes :=
  (taken.find? fun p => p.1=id).map Prod.snd

def putAll (taken : List (ObjectId × Bytes)) (s : Store) : Store :=
  taken.foldl (fun s p => putEnvelopeBytes p.1 p.2 s) s

theorem putEnvelopeBytes_get (s : Store) (id x bytes) : (putEnvelopeBytes id bytes s).objects[x]? =
      if id=x ∧ s.objectExists x=false then some bytes else s.objects[x]? := by
  unfold putEnvelopeBytes
  by_cases hid : id=x
  · subst hid
    by_cases hex : s.objectExists id=true
    · simp [hex]
    · simp [hex]
  · split_ifs with h₁ h₂ h₃
    · exact absurd h₂.1 hid
    · rfl
    · exact absurd h₃.1 hid
    · simp [getElem?_insert,hid]

theorem putAll_get (taken) (s : Store) {x} (h : s.objectExists x=false) :
    (putAll taken s).objects[x]? = takenFor taken x := by
  have hmissing (t : Store) (ht : t.objectExists x=false) : t.objects[x]? = none := by
    apply getElem?_eq_none
    rw [mem_iff_contains,show t.objects.contains x=false from ht]
    exact Bool.false_ne_true
  have hpresent (taken : List (ObjectId × Bytes)) (t : Store) (b : Bytes)
      (ht : t.objects[x]? = some b) : (putAll taken t).objects[x]? = some b := by
    induction taken generalizing t with
    | nil => exact ht
    | cons p taken ih =>
      have hex : t.objectExists x=true := by
        rw [objectExists,← isSome_getElem?_eq_contains,ht]
        rfl
      apply ih (putEnvelopeBytes p.1 p.2 t)
      rw [putEnvelopeBytes_get,if_neg (by simp [hex])]
      exact ht
  induction taken generalizing s with
  | nil => simp [putAll,takenFor,hmissing s h]
  | cons p taken ih =>
    by_cases hp : p.1=x
    · have hput : (putEnvelopeBytes p.1 p.2 s).objects[x]? = some p.2 := by
        rw [putEnvelopeBytes_get,if_pos ⟨hp,h⟩]
      have htaken : takenFor (p::taken) x=some p.2 := by simp [takenFor,hp]
      rw [htaken]
      exact hpresent taken _ p.2 hput
    · have hput : (putEnvelopeBytes p.1 p.2 s).objects[x]? = s.objects[x]? := by
        rw [putEnvelopeBytes_get,if_neg (by simp [hp])]
      have hex : (putEnvelopeBytes p.1 p.2 s).objectExists x=false := by
        rw [objectExists,← isSome_getElem?_eq_contains,hput,hmissing s h]
        rfl
      have htaken : takenFor (p::taken) x=takenFor taken x := by simp [takenFor,hp]
      rw [htaken]
      exact ih (putEnvelopeBytes p.1 p.2 s) hex

theorem fetchObjects_taken {objectIds taken} (rest : List (UInt8 × Bytes)) (imported s)
    (h : List.Forall₂ (fun h p => idFromHexStr h=.ok p.1)
      ((objectIds.drop imported).take taken.length) taken) :
    fetchObjects sdk objectIds
        ((taken.map (fun p => (msgObject,p.2))++rest).map Except.ok) imported s=
      fetchObjects sdk objectIds (rest.map Except.ok) (imported+taken.length) (putAll taken s) := by
  induction taken generalizing imported s with
  | nil => simp [putAll]
  | cons p taken ih =>
    rcases hids : objectIds.drop imported with _ | ⟨hexid,ids⟩
    · simp [hids] at h
    have hget : objectIds[imported]? = some hexid := by
      have hhead : (objectIds.drop imported)[0]? = some hexid := by rw [hids]; rfl
      simpa using hhead
    have hdrop : objectIds.drop (imported+1)=ids := by
      rw [← List.tail_drop,hids,List.tail_cons]
    rw [hids,List.length_cons,List.take_succ_cons,List.forall₂_cons] at h
    have hrest:=ih (imported+1) (putEnvelopeBytes p.1 p.2 s) (by rw [hdrop]; exact h.2)
    simp only [List.map_cons,List.cons_append,fetchObjects,if_true,hget,h.1,hrest,List.length_cons]
    rw [show imported+1+taken.length=imported+(taken.length+1) by omega]
    rfl

theorem fetchObjects_cases {objectIds} (msgs : List (UInt8 × Bytes)) (imported s)
    (hle : imported≤objectIds.length) :
    (∃ e,(fetchObjects sdk objectIds (msgs.map Except.ok) imported s).1=some (.error e)) ∨
      ∃ (taken : List (ObjectId × Bytes)) (rest : List (UInt8 × Bytes)),
        msgs=taken.map (fun p => (msgObject,p.2))++rest ∧
        imported+taken.length≤objectIds.length ∧
        List.Forall₂ (fun h p => idFromHexStr h=.ok p.1)
          ((objectIds.drop imported).take taken.length) taken ∧
        (rest=[] ∨ ∃ body after,rest=(msgDone,body)::after) := by
  induction msgs generalizing imported s with
  | nil => exact .inr ⟨[],[],rfl,hle,by simp,.inl rfl⟩
  | cons m msgs ih =>
    obtain ⟨typ,body⟩ := m
    by_cases hobj : typ=msgObject
    · rcases hget : objectIds[imported]? with - | hexid
      · left
        simp [fetchObjects,hobj,hget]
      rcases hid : idFromHexStr hexid with e | id
      · left
        simp [fetchObjects,hobj,hget,hid]
      have hlt : imported<objectIds.length := by
        by_contra hge
        rw [List.getElem?_eq_none (by omega)] at hget
        cases hget
      rcases ih (imported+1) (putEnvelopeBytes id body s) hlt with ⟨e,he⟩ |
        ⟨taken,rest,hmsgs,hcount,hids,hend⟩
      · left
        exact ⟨e,by simpa [fetchObjects,hobj,hget,hid] using he⟩
      right
      refine ⟨(id,body)::taken,rest,by simp [hobj,hmsgs],?_,?_,hend⟩
      · simp only [List.length_cons]
        omega
      · have hdrop : objectIds.drop imported=hexid::objectIds.drop (imported+1) := by
          rw [List.getElem?_eq_getElem hlt,Option.some.injEq] at hget
          rw [List.drop_eq_getElem_cons hlt,hget]
        rw [hdrop,List.length_cons,List.take_succ_cons,List.forall₂_cons]
        exact ⟨hid,hids⟩
    · by_cases hdone : typ=msgDone
      · right
        exact ⟨[],(typ,body)::msgs,rfl,hle,by simp,.inr ⟨body,msgs,by rw [hdone]⟩⟩
      left
      by_cases herr : typ=msgError
      · simp [fetchObjects,herr,msgError,msgObject,msgDone]
      · simp [fetchObjects,hobj,hdone,herr]

theorem trackBranches_run (sign : Bytes → Signature) (name branches) (s : Store) :
    ∃ r s',trackBranches sign name branches s=some (r,s') ∧ s'.objects=s.objects ∧
      ((∃ e,r=.error e) ↔ refsFit s.remotes.keys (branches.map (trackingName name))=false) := by
  induction branches generalizing s with
  | nil => exact ⟨.ok (),s,rfl,rfl,by simp [refsFit]⟩
  | cons p branches ih =>
    rw [trackBranches,List.map_cons,refsFit]
    cases hclash : refClash s.remotes.keys (trackingName name p) with
    | some e => exact ⟨.error e,s,by simp [writeRef,refMap,hclash],rfl,by simp⟩
    | none =>
      let t:=putRef .remotes (trackingName name p) p.2 (sign (idBytes p.2)) s
      obtain ⟨r,s',hrun,hobjects,hfits⟩ := ih t
      refine ⟨r,s',?_,hobjects,?_⟩
      · rw [← hrun]
        simp [writeRef,refMap,hclash,t]
      · rw [hfits,Option.isNone_none,Bool.true_and]
        refine Eq.congr_left (refsFit_congr (fun n => ?_) _)
        show n∈(s.remotes.insert _ _).keys ↔ _
        rw [mem_keys,mem_insert,Std.LawfulEqCmp.compare_eq_iff_eq,List.mem_cons,mem_keys,eq_comm]

variable (name : String)

theorem fetchFinish_run (track depth manifest) (s : Store) :
    (fetchFinish env name track depth manifest s).2.objects=s.objects ∧
      ((∃ e,(fetchFinish env name track depth manifest s).1=some (.error e)) ↔
        ¬ (track=true → CanTrack env name manifest s)) := by
  unfold fetchFinish CanTrack
  have hshallow : (if depth.isSome then { s with shallow := true } else s).objects=s.objects ∧
      (if depth.isSome then { s with shallow := true } else s).remotes=s.remotes := by
    split_ifs
    · exact ⟨rfl,rfl⟩
    · exact ⟨rfl,rfl⟩
  generalize (if depth.isSome then { s with shallow := true } else s)=t at hshallow
  cases track with
  | false => exact ⟨hshallow.1,by simp⟩
  | true =>
    rcases env.signingBundle with e | sign
    · exact ⟨hshallow.1,by simp⟩
    obtain ⟨r,s',hrun,hobjects,hfits⟩ := trackBranches_run sign name manifest.branches.toList t
    simp only [hrun,if_true]
    refine ⟨hobjects.trans hshallow.1,?_⟩
    rw [hshallow.2] at hfits
    cases r with
    | error e => simpa [Except.map] using hfits
    | ok u => simpa [Except.map] using hfits

theorem putAll_remotes (taken) (s : Store) : (putAll taken s).remotes=s.remotes := by
  induction taken generalizing s with
  | nil => rfl
  | cons p taken ih =>
    refine (ih (putEnvelopeBytes p.1 p.2 s)).trans ?_
    unfold putEnvelopeBytes
    split_ifs
    · rfl
    · rfl

theorem fetchReply_taken {track} (depth s) {msgs taken}
    (h : Takes sdk env name track s msgs taken) :
    (¬ ∃ e,(fetchReply sdk env name track depth s (msgs.map Except.ok)).1=some (.error e)) ∧
      (fetchReply sdk env name track depth s (msgs.map Except.ok)).2.objects=
        (putAll taken s).objects := by
  rcases h with ⟨rfl,rfl⟩ | ⟨mbytes,manifest,rest,rfl,hparse,hids,hend⟩
  · simp [fetchReply,putAll]
  have hloop:=fetchObjects_taken sdk rest 0 s hids
  have hreply : fetchReply sdk env name track depth s
      (((msgManifest,mbytes)::(taken.map (fun p => (msgObject,p.2))++rest)).map Except.ok)=
      match fetchObjects sdk manifest.objectIds (rest.map Except.ok) (0+taken.length)
        (putAll taken s) with
      | (none,s') => (none,s')
      | (some (.error e),s') => (some (.error e),s')
      | (some (.ok imported),s') =>
        let total:=manifest.objectIds.length
        if imported≠total then
          (some (.error s!"fetch incomplete: imported {imported}/{total} objects"),s')
        else fetchFinish env name track depth manifest s' := by
    rw [← hloop]
    simp [fetchReply,hparse,msgError,msgManifest]
  rw [hreply]
  rcases hend with rfl | ⟨⟨body,after,rfl⟩,hcount,hsign⟩
  · simp [fetchObjects]
  have hdone : fetchObjects sdk manifest.objectIds
      (((msgDone,body)::after).map Except.ok) (0+taken.length) (putAll taken s)=
      (some (.ok taken.length),putAll taken s) := by
    simp [fetchObjects,msgDone,msgObject]
  obtain ⟨hobjects,herror⟩ := fetchFinish_run env name track depth manifest (putAll taken s)
  simp only [hdone,hcount,ne_eq,not_true_eq_false,if_false,hobjects,herror,not_not,and_true,CanTrack,
    putAll_remotes]
  exact hsign

theorem fetchReply_cases (track depth s) (msgs : List (UInt8 × Bytes)) :
    (∃ e,(fetchReply sdk env name track depth s (msgs.map Except.ok)).1=some (.error e)) ∨
      ∃ taken,Takes sdk env name track s msgs taken := by
  rcases msgs with _ | ⟨m,msgs⟩
  · exact .inr ⟨[],.inl ⟨rfl,rfl⟩⟩
  obtain ⟨typ,mbytes⟩ := m
  by_cases herr : typ=msgError
  · exact .inl (by simp [fetchReply,herr])
  by_cases htyp : typ=msgManifest
  · subst htyp
    rcases hparse : sdk.parseManifest mbytes with e | manifest
    · exact .inl (by simp [fetchReply,herr,hparse])
    rcases fetchObjects_cases sdk msgs 0 s (Nat.zero_le _) with ⟨e,he⟩ |
      ⟨taken,rest,hmsgs,hcount,hids,hend⟩
    · left
      rcases hrun : fetchObjects sdk manifest.objectIds (msgs.map Except.ok) 0 s with ⟨r,s'⟩
      rw [hrun] at he
      simp only at he
      exact ⟨e,by simp [fetchReply,herr,hparse,hrun,he]⟩
    · rcases hend with rfl | ⟨body,after,rfl⟩
      · exact .inr ⟨taken,.inr ⟨mbytes,manifest,[],by rw [hmsgs],hparse,hids,.inl rfl⟩⟩
      have hloop:=fetchObjects_taken sdk ((msgDone,body)::after) 0 s hids
      have hdone : fetchObjects sdk manifest.objectIds (msgs.map Except.ok) 0 s=
          (some (.ok taken.length),putAll taken s) := by
        rw [hmsgs,hloop]
        simp [fetchObjects,msgDone,msgObject]
      by_cases hall : manifest.objectIds.length=taken.length
      · by_cases hsign : track=true → CanTrack env name manifest s
        · exact .inr ⟨taken,.inr ⟨mbytes,manifest,_,by rw [hmsgs],hparse,hids,
            .inr ⟨⟨body,after,rfl⟩,hall,hsign⟩⟩⟩
        left
        obtain ⟨e,he⟩ := (fetchFinish_run env name track depth manifest (putAll taken s)).2.mpr
          (by simpa only [CanTrack,putAll_remotes] using hsign)
        exact ⟨e,by simpa [fetchReply,herr,hparse,hdone,hall] using he⟩
      · left
        simp [fetchReply,herr,hparse,hdone,Ne.symm hall]
  · exact .inl (by simp [fetchReply,herr,htyp])

theorem fetchExchange_iff (track depth) {conn} (s) {msgs} (hinbox : conn.inbox=msgs.map Except.ok)
    (P : Std.ExtTreeMap ObjectId Bytes compare → Prop) :
    ((∃ e,(fetchExchange sdk env name track depth conn s).1=some (.error e)) ∨
        P (fetchExchange sdk env name track depth conn s).2.objects) ↔
      ∀ taken,conn.sendError=none → Takes sdk env name track s msgs taken →
        P (putAll taken s).objects := by
  rcases hsend : conn.sendError with - | e
  · have hrun : fetchExchange sdk env name track depth conn s=
        fetchReply sdk env name track depth s (msgs.map Except.ok) := by
      simp [fetchExchange,sendMsg,hsend,hinbox]
    rw [hrun]
    constructor
    · intro h taken _ htakes
      obtain ⟨hno,hobjects⟩ := fetchReply_taken sdk env name depth s htakes
      rw [← hobjects]
      exact h.resolve_left hno
    · intro h
      rcases fetchReply_cases sdk env name track depth s msgs with herr | ⟨taken,htakes⟩
      · exact .inl herr
      · right
        rw [(fetchReply_taken sdk env name depth s htakes).2]
        exact h taken rfl htakes
  · have hrun : fetchExchange sdk env name track depth conn s=
        (some (.error s!"send pack frame: {e}"),s) := by
      simp [fetchExchange,sendMsg,hsend]
    rw [hrun]
    constructor
    · intro _ taken hnone
      cases hnone
    · intro _
      exact .inl ⟨_,rfl⟩

end OriginTools.Vcs
