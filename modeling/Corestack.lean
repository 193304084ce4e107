import Corestack.Ballotd.Configured
import Corestack.Ballotd.Injection
import Corestack.Ballotd.Refused
import Corestack.Ballotd.Session
import Corestack.Brain.Collision
import Corestack.Brain.Integrity
import Corestack.Brain.Secrecy
import Corestack.Client.Eligible
import Corestack.Client.RequestTrip
import Corestack.Core.Accounts
import Corestack.Core.Attempts
import Corestack.Core.Frames
import Corestack.Core.Grammar
import Corestack.Core.Token
import Corestack.Simpledb.Filed
import Corestack.Simpledb.Selected
import Corestack.Simpledb.Where
import Corestack.Tetris.Landing
import Corestack.Tetrisd.Framing
import Corestack.Tetrisd.Recycled
import Corestack.Tetrisd.Rounds
import Corestack.Tetrisu.Leaving
