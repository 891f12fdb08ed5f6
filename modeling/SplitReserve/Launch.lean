import SplitReserve.Chain.Call

/-!
# The launch

Three tokens, a protocol and a pool, deployed by an admin, with reserve tokens for five accounts.  `Launch.deployed` has the
contracts, not yet connected; `Launch.wired` connects them, names a keeper and an oracle and publishes the first price;
`Launch.bootstrapped` seeds the protocol with its first reserve.
-/

namespace SplitReserve.Launch

/-! ### Accounts -/

def admin : Address := .account 0x0ee624f1bbaec23e6dc6b877815f322058045c45cdbf8ef53e7db2c58b0af309

def keeper : Address := .account 0x105b69f2d74a211a6cb337cba6751a8f15cc7b44b7c65329c29731b67e1ac047

def oracle : Address := .account 0x147f2cc33b4fdb04ab4e9ef2c067137177097ba50a544a0a343ce636028fcfcf

def alice : Address := .account 0x2f492f5e3cf699b89a9b68293b8ac258f9e533d1212dda478ed98844b462f966

def bob : Address := .account 0x3d5de8c609159a0954e773dd686fb7724428316cb30e00bdc899976127747f55

def carol : Address := .account 0x4832f1a5428c19bb472f8952434058f9fe8cd1b51a48620ab3ecc1292c4e24de

def dave : Address := .account 0x4dd6685334b0ff4b12677d60950e193f62569169e40fa5b23dd85f624d0596b2

def erin : Address := .account 0x6377ec3a3cd949f107e3169e0f40874f0acd1f45728b1aca654a6d66bbc9435e

/-- The accounts that hold reserve tokens from the start. -/
def funded : List Address := [admin, keeper, alice, bob, carol]

/-! ### Contracts -/

def reserveToken : Address := Address.ofOrdinal 1

def fToken : Address := Address.ofOrdinal 2

def xToken : Address := Address.ofOrdinal 3

def protocol : Address := Address.ofOrdinal 4

def pool : Address := Address.ofOrdinal 5

/-- The reserve tokens that each funded account begins with. -/
def funding : Nat := 1000000 * priceScale

/-- The first reserve of the protocol. -/
def firstReserve : Nat := 1000 * priceScale

/-- The first price of the reserve, as it is reported. -/
def firstPrice : Nat := 2 * feedScale

private def token (name symbol : String) : Contract := .token (Token.init name symbol 9 admin)

private def call (caller target : Address) (c : Call) : Step := .call caller target c

/-- The five contracts as they are deployed. -/
def contracts : Chain :=
  [token "Staked Reserve" "sRSV", token "Leaf Dollar" "fUSD", token "Leaf Lever" "xLEV",
    .protocol (Protocol.init admin reserveToken fToken xToken), .pool (Pool.init fToken admin)].foldl Chain.deploy Chain.empty

/-- The funded accounts get reserve tokens, and let the protocol and the pool draw what they need. -/
def fundingSteps : List Step :=
  call admin reserveToken (.token (.addMinter admin)) ::
    (funded.map fun a => call admin reserveToken (.token (.mint a funding))) ++
    funded.flatMap fun a =>
      [call a reserveToken (.token (.approve protocol maxWord)), call a fToken (.token (.approve pool maxWord))]

/-- The contracts get to know each other, and the protocol its officers and its first price. -/
def wiringSteps : List Step :=
  [call admin protocol (.protocol (.setPool pool)),
    call admin pool (.pool (.setController protocol)),
    call admin fToken (.token (.addMinter protocol)),
    call admin xToken (.token (.addMinter protocol)),
    call admin protocol (.protocol (.grantRole Role.keeper.number keeper)),
    call admin protocol (.protocol (.grantRole Role.oracle.number oracle)),
    call oracle protocol (.protocol (.updatePrice firstPrice 0))]

def deployed : Chain := contracts.after fundingSteps

def wired : Chain := deployed.after wiringSteps

def bootstrapped : Chain := wired.apply admin protocol (.protocol (.bootstrap firstReserve))

end SplitReserve.Launch
