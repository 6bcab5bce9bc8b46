import CallBackend.Server.MediaGrants

/-!
# Attaching with a token

A private transport attaches with a token that `bootstrap` has handed out over the link of the
session. The authority keeps what it was issued for until the first attempt to use it. So an
attachment that succeeds goes back to a request of the session it is for, less than the lifetime of
tokens ago, since when neither the token has been tried nor the credentials of the session have been
invalidated.
-/

namespace CallBackend.Server

open Exec

section Grants

variable {setup : Setup} {env : ServerEnv} {asked : Option BootstrapCall} {takes : Prop}
  {reply : Option Reply} {st st' : ServerState} {token : Token} {grant : AttachGrant}

theorem Update.grants {action : Option Call.Action} (h : Update setup env takes action st st')
    (hgrant : st'.tokens.grants.get? token = some grant) : st.tokens.grants.get? token = some grant := by
  cases h with
  | quiet h =>
    rw [h.rest] at hgrant
    exact hgrant
  | invalidated id =>
    rw [ServerState.withoutCredentials, TokenAuthority.invalidate, Dict.get?_filter] at hgrant
    exact (Option.filter_eq_some_iff.1 hgrant).1
  | unbound id =>
    unfold ServerState.unbound ServerState.withoutIndexes at hgrant
    split at hgrant <;> exact hgrant
  | _ => exact hgrant

theorem Deal.grants (h : Deal setup env asked reply st st')
    (hgrant : st'.tokens.grants.get? token = some grant) :
    st.tokens.grants.get? token = some grant ∨ grant.Describes setup env asked token st := by
  have hissuing : ∀ {other : Token} {new : AttachGrant}, new.Describes setup env asked other st →
      (st.issuing env.now other new).tokens.grants.get? token = some grant →
      st.tokens.grants.get? token = some grant ∨ grant.Describes setup env asked token st := by
    intro other new hdescribes hissued
    change ((st.tokens.expireGrants env.now).grants.set other new).get? token = some grant at hissued
    rw [Dict.get?_set] at hissued
    split_ifs at hissued with htoken
    · exact .inr (htoken ▸ Option.some.inj hissued ▸ hdescribes)
    · exact .inl (get?_expireGrants hissued)
  have hspending : ∀ other, (st.spending env.now other).tokens.grants.get? token = some grant →
      st.tokens.grants.get? token = some grant :=
    fun other hspent => get?_expireGrants (Dict.get?_erase_eq_some hspent).2
  cases h with
  | limited => exact .inl (get?_expireGrants hgrant)
  | issued _ hdescribes => exact hissuing hdescribes hgrant
  | unwritten _ hdescribes => exact hissuing hdescribes hgrant
  | written _ _ hdescribes => exact hissuing hdescribes hgrant
  | returned => exact .inl (Dict.get?_erase_eq_some hgrant).2
  | spent _ other => exact .inl (hspending other hgrant)
  | attached => exact .inl (hspending _ hgrant)
  | _ => exact .inl hgrant

theorem Run.grants {trace : List Call.Action} (h : Run setup env takes trace st st')
    (hgrant : st'.tokens.grants.get? token = some grant) : st.tokens.grants.get? token = some grant := by
  induction h with
  | refl => exact hgrant
  | step _ hupdate ih => exact ih (hupdate.grants hgrant)

end Grants

namespace Sample

end Sample

end CallBackend.Server
