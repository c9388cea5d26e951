import Spintax.Cache.Basic

namespace Spintax.Cache

inductive Request where
  | get (text : String)
  | resolve (text : String)
  | purge
  | clear
  | pass (milliseconds : Nat)
deriving DecidableEq, Repr

inductive Answer where
  | found (p : Option Parse)
  | resolved (r : Except Fault Parse)
  | purged (n : Nat)
  | done

structure Session where
  cache : Cache
  now : Nat

namespace Session

def start (limits : Limits) (fingerprint : String → UInt32) : Session :=
  ⟨.empty limits fingerprint, 0⟩

def step (s : Session) : Request → Answer × Session
  | .get text =>
    let (p, cache) := s.cache.get s.now text
    (.found p, { s with cache })
  | .resolve text =>
    let (r, cache) := s.cache.resolve s.now text
    (.resolved r, { s with cache })
  | .purge =>
    let (n, cache) := s.cache.purge s.now
    (.purged n, { s with cache })
  | .clear => (.done, { s with cache := s.cache.clear })
  | .pass ms => (.done, { s with now := s.now + ms })

def run : List Request → Session → List Answer × Session
  | [], s => ([], s)
  | r :: rs, s =>
    let (a, s) := s.step r
    let (as, s) := run rs s
    (a :: as, s)

end Session

end Spintax.Cache
